import SpiderMonkey.Builtin.FutexThread
import SpiderMonkey.Lib.CircularList

/-!
# `Atomics.wait` and `Atomics.notify`

Agents that wait on locations of shared buffers and notify each other.  Each buffer has a circular list of
the records of its waiting calls, which live on the stacks of the agents.  The lock makes the code between
two of its releases one step.
-/

namespace SpiderMonkey

open EventRun List Function

/-! ## The agents -/

/-- A call of `AtomicsWait`, with the address of its `FutexWaiter`. -/
structure AtomicsWaitCall (T B : Type) where
  w : ℕ
  cx : T
  sarb : B
  byteOffset : ℕ
  deriving DecidableEq

/-- What agents have done; `terminated` says that the interrupt handler terminated the script, and
`selected` are the records for which a thread was notified. -/
inductive AgentHappening (T B : Type)
  | waited (call : AtomicsWaitCall T B)
  | returned (call : AtomicsWaitCall T B) (result : WaitResult) (terminated : Bool)
  | notified (sarb : B) (byteOffset : ℕ) (count : ℤ) (woken : ℕ) (selected : List ℕ)
  deriving DecidableEq

/-- Agents and shared buffers.  The fields of the `FutexWaiter` at an address are functions of it. -/
structure Agents (T B : Type) where
  fx : T → FutexThread (AtomicsWaitCall T B)
  canWait : T → Bool
  waiters : B → Option ℕ
  offset : ℕ → ℕ
  cx : ℕ → T
  lower_pri : ℕ → ℕ
  back : ℕ → ℕ
  /-- The address of the next record. -/
  fresh : ℕ
  log : List (AgentHappening T B)

/-- `equal` says that the value at the location is the one that is passed, and `expired` that it is too late
for a timed wait. -/
inductive AgentEvent (T B : Type)
  | wait (t : T) (sarb : B) (byteOffset : ℕ) (equal isTimed : Bool)
  | wake (t : T) (expired : Bool)
  | handled (t : T) (result : Bool)
  | reported (t : T)
  | interrupt (t : T)
  | notify (t : T) (sarb : B) (byteOffset : ℕ) (count : ℤ)

namespace Agents

open Function

variable {T B : Type} [DecidableEq T] [DecidableEq B]

/-! ## The list of waiters -/

def link (w : ℕ) (sarb : B) (s : Agents T B) : Agents T B :=
  match s.waiters sarb with
  | some waiters =>
    { s with
      lower_pri := update (update s.lower_pri w waiters) (s.back waiters) w
      back := update (update s.back w (s.back waiters)) waiters w }
  | none =>
    { s with
      lower_pri := update s.lower_pri w w
      back := update s.back w w
      waiters := update s.waiters sarb (some w) }

def unlink (w : ℕ) (sarb : B) (s : Agents T B) : Agents T B :=
  if s.lower_pri w = w then { s with waiters := update s.waiters sarb none }
  else
    { s with
      back := update s.back (s.lower_pri w) (s.back w)
      lower_pri := update s.lower_pri (s.back w) (s.lower_pri w)
      waiters := if s.waiters sarb = some w then update s.waiters sarb (some (s.lower_pri w))
        else s.waiters }

omit [DecidableEq T] in
@[simp] lemma link_fx (w : ℕ) (sarb : B) (s : Agents T B) : (link w sarb s).fx = s.fx ∧
    (link w sarb s).offset = s.offset ∧ (link w sarb s).cx = s.cx ∧ (link w sarb s).fresh = s.fresh ∧
    (link w sarb s).log = s.log := by
  unfold link
  split <;> exact ⟨rfl, rfl, rfl, rfl, rfl⟩

omit [DecidableEq T] in
@[simp] lemma unlink_fx (w : ℕ) (sarb : B) (s : Agents T B) : (unlink w sarb s).fx = s.fx ∧
    (unlink w sarb s).offset = s.offset ∧ (unlink w sarb s).cx = s.cx ∧ (unlink w sarb s).fresh = s.fresh ∧
    (unlink w sarb s).log = s.log := by
  unfold unlink
  split_ifs <;> exact ⟨rfl, rfl, rfl, rfl, rfl⟩

/-! ## Waiting -/

/-- A record is linked and `FutexThread::wait` is called. -/
def arrive (call : AtomicsWaitCall T B) (isTimed : Bool) (s : Agents T B) : Agents T B :=
  { link call.w call.sarb
      { s with
        offset := update s.offset call.w call.byteOffset
        cx := update s.cx call.w call.cx } with
    fresh := s.fresh + 1
    fx := update s.fx call.cx ((s.fx call.cx).enter call isTimed)
    log := s.log ++ [.waited call] }

/-- `AtomicsWait` up to the first release of the lock. -/
def atomicsWait (t : T) (sarb : B) (byteOffset : ℕ) (equal isTimed : Bool) (s : Agents T B) : Agents T B :=
  if s.canWait t = false ∨ equal = false then s else arrive ⟨s.fresh, t, sarb, byteOffset⟩ isTimed s

/-- A call of `FutexThread::wait` has got on, and `AtomicsWait` with it. -/
def proceed (t : T) (terminated : Bool) (s : Agents T B) :
    FutexThread (AtomicsWaitCall T B) × WaitProgress (AtomicsWaitCall T B) → Agents T B
  | (thread, .returns call result) =>
    { unlink call.w call.sarb { s with fx := update s.fx t thread } with
      log := s.log ++ [.returned call result terminated] }
  | (thread, _) => { s with fx := update s.fx t thread }

/-! ## Notifying -/

/-- The loop of `atomics_notify_impl`, from `iter` on. -/
def notifyLoop (s : Agents T B) (byteOffset waiters : ℕ) :
    ℕ → ℕ → ℤ → (T → FutexThread (AtomicsWaitCall T B)) → List ℕ →
      Option ((T → FutexThread (AtomicsWaitCall T B)) × List ℕ)
  | 0, _, _, _, _ => none
  | fuel + 1, c, count, fx, selected =>
    let iter := s.lower_pri c
    if s.offset c ≠ byteOffset ∨ (fx (s.cx c)).isWaiting = false then
      if count ≠ 0 ∧ iter ≠ waiters then notifyLoop s byteOffset waiters fuel iter count fx selected
      else some (fx, selected)
    -- the number of those that have been woken has to be below `INT64_MAX`
    else if 2 ^ 63 - 1 ≤ selected.length then none
    else
      let fx := update fx (s.cx c) ((fx (s.cx c)).notify .NotifyExplicit).1
      let count := if 0 < count then count - 1 else count
      if count ≠ 0 ∧ iter ≠ waiters then
        notifyLoop s byteOffset waiters fuel iter count fx (selected ++ [c])
      else some (fx, selected ++ [c])

/-- `atomics_notify_impl`: the threads afterwards, and the records for which a thread was notified. -/
def atomicsNotify (sarb : B) (byteOffset : ℕ) (count : ℤ) (s : Agents T B) :
    Option ((T → FutexThread (AtomicsWaitCall T B)) × List ℕ) :=
  match s.waiters sarb with
  | some waiters =>
    if count ≠ 0 then notifyLoop s byteOffset waiters s.fresh waiters count s.fx [] else some (s.fx, [])
  | none => some (s.fx, [])

/-! ## Steps -/

def step : AgentEvent T B → Agents T B → Option (Agents T B)
  | .wait t sarb byteOffset equal isTimed, s =>
    if (s.fx t).isRunning = true then some (s.atomicsWait t sarb byteOffset equal isTimed) else none
  | .wake t expired, s => ((s.fx t).wake expired).map (s.proceed t false)
  | .handled t result, s => ((s.fx t).handled result).map (s.proceed t (!result))
  | .reported t, s => (s.fx t).reported.map (s.proceed t false)
  | .interrupt t, s =>
    if (s.fx t).isWaiting = true then
      some { s with fx := update s.fx t ((s.fx t).notify .NotifyForJSInterrupt).1 }
    else some s
  | .notify t sarb byteOffset count, s =>
    if (s.fx t).isRunning = true then
      (s.atomicsNotify sarb byteOffset count).map fun p =>
        { s with
          fx := p.1
          log := s.log ++ [.notified sarb byteOffset count p.2.length p.2] }
    else none

def init (canWait : T → Bool) (offset : ℕ → ℕ) (cx : ℕ → T) (lower_pri back : ℕ → ℕ) : Agents T B :=
  ⟨fun _ => .idle, canWait, fun _ => none, offset, cx, lower_pri, back, 0, []⟩

end Agents

/-! ## What the log says -/

namespace AgentLog

open AgentHappening

variable {T B : Type} [DecidableEq T] [DecidableEq B]

variable (log : List (AgentHappening T B))

/-- All calls of `AtomicsWait` that have waited, in the order in which they arrived. -/
def waits : List (AtomicsWaitCall T B) :=
  log.filterMap fun happening =>
    match happening with
    | .waited call => some call
    | _ => none

def returns : List (AtomicsWaitCall T B) :=
  log.filterMap fun happening =>
    match happening with
    | .returned call _ _ => some call
    | _ => none

variable (sarb : B)

/-- The calls on a buffer that have not returned, in the order in which they arrived. -/
def pending : List (AtomicsWaitCall T B) :=
  (waits log).filter fun call => call.sarb = sarb ∧ call ∉ returns log

/-- All records that have been selected by notifications. -/
def selections : List ℕ :=
  log.flatMap fun happening =>
    match happening with
    | .notified _ _ _ _ selected => selected
    | _ => []

variable (byteOffset : ℕ)

/-- The waiters at a location that have not been notified, in the order in which they arrived. -/
def unnotified : List (AtomicsWaitCall T B) :=
  (pending log sarb).filter fun call => call.byteOffset = byteOffset ∧ call.w ∉ selections log

/-- The first ones, as many as there are to be notified; a negative count is for all. -/
def firsts {α : Type} (count : ℤ) (l : List α) : List α := if count < 0 then l else l.take count.toNat

/-- The waiters that are to be notified. -/
def toNotify (count : ℤ) : List (AtomicsWaitCall T B) :=
  firsts count (unnotified log sarb byteOffset)

@[simp] lemma firsts_zero {α : Type} (l : List α) : firsts 0 l = [] := by simp [firsts]

@[simp] lemma firsts_nil {α : Type} (count : ℤ) : firsts count ([] : List α) = [] := by simp [firsts]

lemma firsts_cons {α : Type} {count : ℤ} (hcount : count ≠ 0) (x : α) (l : List α) :
    firsts count (x :: l) = x :: firsts (if 0 < count then count - 1 else count) l := by
  unfold firsts
  by_cases hneg : count < 0
  · have hpos : ¬ 0 < count := by omega
    simp [hneg, hpos]
  · have hpos : 0 < count := by omega
    obtain ⟨n, hn⟩ : ∃ n, count.toNat = n + 1 := ⟨count.toNat - 1, by omega⟩
    have hpred : (count - 1).toNat = n := by omega
    rw [if_neg hneg, if_pos hpos, if_neg (by omega), hn, hpred, take_succ_cons]

lemma firsts_sublist {α : Type} (count : ℤ) (l : List α) : (firsts count l).Sublist l := by
  unfold firsts
  split_ifs
  · exact .refl l
  · exact take_sublist _ l

variable {log : List (AgentHappening T B)} {call : AtomicsWaitCall T B}

omit [DecidableEq T] [DecidableEq B] in
@[simp] lemma waits_waited : waits (log ++ [waited call]) = waits log ++ [call] := by simp [waits]

variable (result : WaitResult)

variable (terminated : Bool)

section

omit [DecidableEq T] [DecidableEq B]

@[simp] lemma waits_returned :
    waits (log ++ [returned call result terminated]) = waits log := by simp [waits]

@[simp] lemma waits_notified (count : ℤ) (woken : ℕ) (selected : List ℕ) :
    waits (log ++ [notified sarb byteOffset count woken selected]) = waits log := by simp [waits]

@[simp] lemma returns_waited : returns (log ++ [waited call]) = returns log := by simp [returns]

@[simp] lemma returns_returned :
    returns (log ++ [returned call result terminated]) = returns log ++ [call] := by simp [returns]

@[simp] lemma returns_notified (count : ℤ) (woken : ℕ) (selected : List ℕ) :
    returns (log ++ [notified sarb byteOffset count woken selected]) = returns log := by simp [returns]

@[simp] lemma selections_waited : selections (log ++ [waited call]) = selections log := by simp [selections]

@[simp] lemma selections_returned :
    selections (log ++ [returned call result terminated]) = selections log := by simp [selections]

@[simp] lemma selections_notified (count : ℤ) (woken : ℕ) (selected : List ℕ) :
    selections (log ++ [notified sarb byteOffset count woken selected]) = selections log ++ selected := by
  simp [selections]

end

lemma mem_pending {sarb : B} : call ∈ pending log sarb ↔ call ∈ waits log ∧ call.sarb = sarb ∧ call ∉ returns log := by
  simp [pending]

lemma pending_waited (hcall : call ∉ returns log) (sarb : B) :
    pending (log ++ [waited call]) sarb = pending log sarb ++ if call.sarb = sarb then [call] else [] := by
  unfold pending
  rw [waits_waited, returns_waited, filter_append]
  congr 1
  by_cases h : call.sarb = sarb <;> simp [h, hcall]

lemma pending_returned :
    pending (log ++ [returned call result terminated]) sarb = (pending log sarb).filter (· ≠ call) := by
  unfold pending
  rw [waits_returned, returns_returned, filter_filter]
  refine filter_congr fun x _ => ?_
  simp only [mem_append, mem_singleton, not_or, Bool.decide_and]
  grind

@[simp] lemma pending_notified (sarb sarb' : B) (byteOffset : ℕ) (count : ℤ) (woken : ℕ) (selected : List ℕ) :
    pending (log ++ [notified sarb' byteOffset count woken selected]) sarb = pending log sarb := by
  unfold pending
  simp

end AgentLog

/-! ## The lists are well linked -/

/-- The calls of a thread, innermost first. -/
def FutexThread.data {α : Type} (t : FutexThread α) : List α := t.calls.map WaitCall.data

namespace FutexThread

variable {α : Type} {t t' : FutexThread α} {p : FutexThread α × WaitProgress α}

/-- What getting on does to the calls of a thread: the innermost one returns, or they stay. -/
def Proceeds (t : FutexThread α) (p : FutexThread α × WaitProgress α) : Prop :=
  match p.2 with
  | .returns a _ => t.data = a :: p.1.data
  | _ => p.1.data = t.data

lemma proceeds_wake {expired : Bool} (h : t.wake expired = some p) : t.Proceeds p := by
  unfold wake at h
  split at h
  next a isTimed calls hcalls =>
    have hdata : t.data = a :: calls.map WaitCall.data := by simp [data, hcalls]
    split at h
    · split_ifs at h <;> obtain rfl := Option.some.inj h
      · exact hdata
      · exact hdata.symm
    · cases h
      exact hdata
    · cases h
      exact hdata.symm
    · simp at h
  next => simp at h

lemma proceeds_handled {result : Bool} (h : t.handled result = some p) : t.Proceeds p := by
  unfold handled at h
  split at h
  next a isTimed calls hcalls =>
    have hdata : t.data = a :: calls.map WaitCall.data := by simp [data, hcalls]
    split_ifs at h <;> obtain rfl := Option.some.inj h
    · exact hdata
    · exact hdata
    · exact hdata.symm
  next => simp at h

lemma proceeds_reported (h : t.reported = some p) : t.Proceeds p := by
  unfold reported at h
  split at h
  next a isTimed calls hcalls =>
    cases h
    change t.data = a :: calls.map WaitCall.data
    simp [data, hcalls]
  next => simp at h

@[simp] lemma data_enter (a : α) (isTimed : Bool) (t : FutexThread α) : (t.enter a isTimed).data = a :: t.data := by
  unfold enter
  split_ifs <;> rfl

@[simp] lemma data_notify (reason : NotifyReason) (t : FutexThread α) : (t.notify reason).1.data = t.data := by
  simp [data]

end FutexThread

namespace Agents

open AgentLog

variable {T B : Type} [DecidableEq T] [DecidableEq B] {s s' : Agents T B}

section Links

variable {l : B → List ℕ} {w : ℕ} {sarb : B}

omit [DecidableEq T] in
lemma isCircle_link (h : ∀ b, IsCircle s.lower_pri s.back (s.waiters b) (l b))
    (hdisjoint : ∀ b b', b ≠ b' → ∀ x ∈ l b, x ∉ l b') (hw : ∀ b, w ∉ l b) (b : B) :
    IsCircle (link w sarb s).lower_pri (link w sarb s).back ((link w sarb s).waiters b)
      (l b ++ if sarb = b then [w] else []) := by
  unfold link
  cases hhead : s.waiters sarb with
  | none =>
    dsimp only
    obtain rfl | hne := eq_or_ne sarb b
    · have hnil : l sarb = [] := by
        have := (h sarb).head_eq
        rw [hhead] at this
        exact head?_eq_none_iff.1 this.symm
      rw [if_pos rfl, hnil, update_self]
      exact .single _ _ w
    · rw [if_neg hne, append_nil, update_of_ne hne.symm]
      have hne' (a : ℕ) (ha : a ∈ l b) : a ≠ w := fun heq => hw b (heq ▸ ha)
      exact (h b).congr (fun a ha => update_of_ne (hne' a ha) _ _)
        fun a ha => update_of_ne (hne' a ha) _ _
  | some waiters =>
    dsimp only
    have hcircle := h sarb
    rw [hhead] at hcircle
    obtain rfl | hne := eq_or_ne sarb b
    · rw [if_pos rfl, hhead]
      exact hcircle.push (hw sarb)
    · rw [if_neg hne, append_nil]
      have hmem : waiters ∈ l sarb := mem_of_mem_head? hcircle.head_eq.symm
      have hback : s.back waiters ∈ l sarb := (hcircle.neighbours_mem hmem).2
      have hne' (a : ℕ) (ha : a ∈ l b) : a ≠ w := fun heq => hw b (heq ▸ ha)
      refine (h b).congr (fun a ha => ?_) fun a ha => ?_
      · have ha' : a ≠ s.back waiters := fun heq => hdisjoint b sarb hne.symm a ha (heq ▸ hback)
        rw [update_of_ne ha', update_of_ne (hne' a ha)]
      · have ha' : a ≠ waiters := fun heq => hdisjoint b sarb hne.symm a ha (heq ▸ hmem)
        rw [update_of_ne ha', update_of_ne (hne' a ha)]

omit [DecidableEq T] in
lemma isCircle_unlink (h : ∀ b, IsCircle s.lower_pri s.back (s.waiters b) (l b))
    (hdisjoint : ∀ b b', b ≠ b' → ∀ x ∈ l b, x ∉ l b') (hw : w ∈ l sarb) (b : B) :
    IsCircle (unlink w sarb s).lower_pri (unlink w sarb s).back ((unlink w sarb s).waiters b)
      ((l b).erase w) := by
  have hothers (hne : sarb ≠ b) : (l b).erase w = l b := erase_of_not_mem (hdisjoint sarb b hne w hw)
  unfold unlink
  split_ifs with hself hhead <;> dsimp only
  · obtain rfl | hne := eq_or_ne sarb b
    · simpa [((h sarb).next_eq_self_iff hw).1 hself] using .empty _ _
    · rw [hothers hne, update_of_ne hne.symm]
      exact h b
  all_goals
    obtain ⟨hnext, hprev⟩ := (h sarb).neighbours_mem hw
    have hstay (hne : sarb ≠ b) : IsCircle (update s.lower_pri (s.back w) (s.lower_pri w))
        (update s.back (s.lower_pri w) (s.back w)) (s.waiters b) (l b) := by
      refine (h b).congr (fun a ha => update_of_ne (fun heq => ?_) _ _)
        fun a ha => update_of_ne (fun heq => ?_) _ _
      · exact hdisjoint b sarb hne.symm a ha (heq ▸ hprev)
      · exact hdisjoint b sarb hne.symm a ha (heq ▸ hnext)
  · obtain rfl | hne := eq_or_ne sarb b
    · have hremoved := (h sarb).remove hw hself
      rw [if_pos hhead] at hremoved
      simpa using hremoved
    · rw [hothers hne, update_of_ne hne.symm]
      exact hstay hne
  · obtain rfl | hne := eq_or_ne sarb b
    · have hremoved := (h sarb).remove hw hself
      rwa [if_neg hhead] at hremoved
    · rw [hothers hne]
      exact hstay hne

end Links

/-- The list of each buffer consists of its pending calls, in the order in which they arrived. -/
structure Linked (s : Agents T B) : Prop where
  circles : ∀ sarb, IsCircle s.lower_pri s.back (s.waiters sarb) ((pending s.log sarb).map AtomicsWaitCall.w)
  calls : ∀ call, call ∈ pending s.log call.sarb ↔ call ∈ (s.fx call.cx).data
  own : ∀ t, ∀ call ∈ (s.fx t).data, call.cx = t
  once : ∀ t, (s.fx t).data.Nodup
  fields : ∀ call ∈ waits s.log, s.offset call.w = call.byteOffset ∧ s.cx call.w = call.cx
  returned : ∀ call ∈ returns s.log, call ∈ waits s.log
  fresh : ∀ call ∈ waits s.log, call.w < s.fresh
  nodup : ((waits s.log).map AtomicsWaitCall.w).Nodup

namespace Linked

lemma inj (h : s.Linked) {x y : AtomicsWaitCall T B} (hx : x ∈ waits s.log) (hy : y ∈ waits s.log)
    (heq : x.w = y.w) : x = y := inj_on_of_nodup_map h.nodup hx hy heq

lemma mem_waits (h : s.Linked) {t : T} {call : AtomicsWaitCall T B} (hcall : call ∈ (s.fx t).data) :
    call ∈ waits s.log := by
  have heq := h.own t call hcall
  exact (mem_pending.1 ((h.calls call).2 (heq ▸ hcall))).1

lemma disjoint (h : s.Linked) (b b' : B) (hne : b ≠ b') (w : ℕ)
    (hw : w ∈ (pending s.log b).map AtomicsWaitCall.w) : w ∉ (pending s.log b').map AtomicsWaitCall.w := by
  intro hw'
  obtain ⟨x, hx, rfl⟩ := mem_map.1 hw
  obtain ⟨y, hy, heq⟩ := mem_map.1 hw'
  obtain ⟨hx, hxb, -⟩ := mem_pending.1 hx
  obtain ⟨hy, hyb, -⟩ := mem_pending.1 hy
  exact hne (hxb.symm.trans ((congrArg _ (h.inj hy hx heq)).symm.trans hyb))

/-- A new call is the last in the list of its buffer. -/
theorem arrive (h : s.Linked) {call : AtomicsWaitCall T B} (hw : call.w = s.fresh) (isTimed : Bool) :
    (s.arrive call isTimed).Linked := by
  have hne (x : AtomicsWaitCall T B) (hx : x ∈ waits s.log) : x.w ≠ call.w := by
    have := h.fresh x hx
    omega
  have hfresh : call ∉ waits s.log := fun hmem => hne call hmem rfl
  have hnew : call ∉ returns s.log := fun hmem => hfresh (h.returned call hmem)
  have hdata (t : T) : (s.arrive call isTimed).fx t = if t = call.cx then (s.fx t).enter call isTimed else s.fx t := by
    change Function.update s.fx call.cx _ t = _
    split_ifs with ht
    · rw [ht, update_self]
    · rw [update_of_ne ht]
  have hlog : (s.arrive call isTimed).log = s.log ++ [AgentHappening.waited call] := rfl
  have hmem (x : AtomicsWaitCall T B) (t : T) : x ∈ ((s.arrive call isTimed).fx t).data ↔
      x = call ∧ t = call.cx ∨ x ∈ (s.fx t).data := by
    rw [hdata]
    by_cases ht : t = call.cx <;> simp [ht]
  obtain ⟨-, hoffset, hcx, -, -⟩ := link_fx call.w call.sarb
    { s with
      offset := Function.update s.offset call.w call.byteOffset
      cx := Function.update s.cx call.w call.cx }
  refine ⟨fun b => ?_, fun x => ?_, fun t x hx => ?_, fun t => ?_, fun x hx => ?_, fun x hx => ?_, fun x hx => ?_, ?_⟩
  · have hlist : (pending (s.log ++ [AgentHappening.waited call]) b).map AtomicsWaitCall.w =
        (pending s.log b).map AtomicsWaitCall.w ++ if call.sarb = b then [call.w] else [] := by
      rw [pending_waited hnew, map_append]
      by_cases hb : call.sarb = b <;> simp [hb]
    rw [hlog, hlist]
    refine isCircle_link (l := fun b => (pending s.log b).map AtomicsWaitCall.w)
      (s := { s with
        offset := Function.update s.offset call.w call.byteOffset
        cx := Function.update s.cx call.w call.cx }) h.circles h.disjoint (fun b hmem => ?_) b
    obtain ⟨x, hx, heq⟩ := mem_map.1 hmem
    exact hne x (mem_pending.1 hx).1 heq
  · rw [hlog, pending_waited hnew, mem_append, h.calls, hmem]
    by_cases hx : x = call
    · simp [hx]
    · by_cases hb : call.sarb = x.sarb <;> simp [hb, hx]
  · obtain ⟨rfl, rfl⟩ | hx := (hmem x t).1 hx
    · rfl
    · exact h.own t x hx
  · rw [hdata]
    split_ifs with ht
    · rw [FutexThread.data_enter]
      exact nodup_cons.2 ⟨fun hmem => hfresh (h.mem_waits hmem), h.once t⟩
    · exact h.once t
  · change (link _ _ _).offset x.w = _ ∧ (link _ _ _).cx x.w = _
    rw [hoffset, hcx]
    dsimp only
    rw [hlog, waits_waited, mem_append, mem_singleton] at hx
    obtain hx | rfl := hx
    · rw [update_of_ne (hne x hx), update_of_ne (hne x hx)]
      exact h.fields x hx
    · simp
  · rw [hlog, returns_waited] at hx
    rw [hlog, waits_waited]
    exact mem_append_left _ (h.returned x hx)
  · rw [hlog, waits_waited, mem_append, mem_singleton] at hx
    change x.w < s.fresh + 1
    obtain hx | rfl := hx
    · exact (h.fresh x hx).trans (Nat.lt_succ_self _)
    · omega
  · rw [hlog, waits_waited, map_append]
    refine nodup_append.2 ⟨h.nodup, nodup_singleton _, fun w hw w' hw' heq => ?_⟩
    obtain ⟨x, hx, rfl⟩ := mem_map.1 hw
    exact hne x hx (heq.trans (mem_singleton.1 hw'))

theorem proceed (h : s.Linked) {t : T} {p : FutexThread (AtomicsWaitCall T B) × WaitProgress (AtomicsWaitCall T B)}
    (hp : (s.fx t).Proceeds p) (terminated : Bool) : (s.proceed t terminated p).Linked := by
  obtain ⟨thread, progress⟩ := p
  have hsame (hdata : thread.data = (s.fx t).data) : Linked { s with fx := Function.update s.fx t thread } := by
    have hfx (t' : T) : (Function.update s.fx t thread t').data = (s.fx t').data := by
      by_cases ht : t' = t
      · rw [ht, update_self, hdata]
      · rw [update_of_ne ht]
    refine ⟨h.circles, fun x => ?_, fun t' x hx => h.own t' x (hfx t' ▸ hx), fun t' => ?_, h.fields, h.returned,
      h.fresh, h.nodup⟩
    · exact (h.calls x).trans (by rw [hfx])
    · exact (hfx t').symm ▸ h.once t'
  cases progress with
  | blocks => exact hsame hp
  | handles => exact hsame hp
  | returns call result =>
    have hdata : (s.fx t).data = call :: thread.data := hp
    have hcall : call ∈ (s.fx t).data := hdata ▸ mem_cons_self
    have hcx : call.cx = t := h.own t call hcall
    have hpending : call ∈ pending s.log call.sarb := (h.calls call).2 (hcx ▸ hcall)
    obtain ⟨hthread, hnodup⟩ := nodup_cons.1 (hdata ▸ h.once t)
    have hlog : (s.proceed t terminated (thread, .returns call result)).log =
        s.log ++ [AgentHappening.returned call result terminated] := rfl
    obtain ⟨hfx, hoffset, hcxs, hfresh, -⟩ := unlink_fx call.w call.sarb { s with fx := Function.update s.fx t thread }
    have hmem (x : AtomicsWaitCall T B) (t' : T) :
        x ∈ ((s.proceed t terminated (thread, .returns call result)).fx t').data ↔ x ∈ (s.fx t').data ∧ x ≠ call := by
      change x ∈ ((unlink _ _ _).fx t').data ↔ _
      rw [hfx]
      dsimp only
      by_cases ht : t' = t
      · rw [ht, update_self, hdata, mem_cons]
        constructor
        · exact fun hx => ⟨.inr hx, fun heq => hthread (heq ▸ hx)⟩
        · exact fun hx => hx.1.resolve_left hx.2
      · rw [update_of_ne ht]
        refine (and_iff_left_of_imp fun hx heq => ht ?_).symm
        rw [← h.own t' x hx, heq, hcx]
    have hcall' : call ∈ waits s.log := (mem_pending.1 hpending).1
    refine ⟨fun b => ?_, fun x => ?_, fun t' x hx => h.own t' x ((hmem x t').1 hx).1, fun t' => ?_, fun x hx => ?_,
      fun x hx => ?_, fun x hx => ?_, ?_⟩
    · have hlist : (pending (s.log ++ [AgentHappening.returned call result terminated]) b).map AtomicsWaitCall.w =
          ((pending s.log b).map AtomicsWaitCall.w).erase call.w := by
        rw [pending_returned, (h.circles b).nodup.erase_eq_filter, filter_map]
        refine congrArg _ (filter_congr fun x hx => ?_)
        have hiff : x.w = call.w ↔ x = call := ⟨h.inj (mem_pending.1 hx).1 hcall', congrArg _⟩
        by_cases hx : x = call
        · simp [hx]
        · have hw : x.w ≠ call.w := fun heq => hx (hiff.1 heq)
          simp [hx, hw]
      rw [hlog, hlist]
      exact isCircle_unlink (l := fun b => (pending s.log b).map AtomicsWaitCall.w)
        (s := { s with fx := Function.update s.fx t thread }) h.circles h.disjoint (mem_map_of_mem hpending) b
    · rw [hlog, pending_returned, mem_filter, h.calls, hmem]
      simp
    · change ((unlink _ _ _).fx t').data.Nodup
      rw [hfx]
      dsimp only
      by_cases ht : t' = t
      · rw [ht, update_self]
        exact hnodup
      · rw [update_of_ne ht]
        exact h.once t'
    · change (unlink _ _ _).offset x.w = _ ∧ (unlink _ _ _).cx x.w = _
      rw [hoffset, hcxs]
      exact h.fields x (by rwa [hlog, waits_returned] at hx)
    · rw [hlog, returns_returned, mem_append, mem_singleton] at hx
      rw [hlog, waits_returned]
      obtain hx | rfl := hx
      · exact h.returned x hx
      · exact hcall'
    · change x.w < (unlink _ _ _).fresh
      rw [hfresh]
      exact h.fresh x (by rwa [hlog, waits_returned] at hx)
    · rw [hlog, waits_returned]
      exact h.nodup

lemma of_same (h : s.Linked) {fx : T → FutexThread (AtomicsWaitCall T B)} (hfx : ∀ t, (fx t).data = (s.fx t).data) :
    Linked { s with fx := fx } where
  circles := h.circles
  calls x := (h.calls x).trans (by rw [hfx])
  own t x hx := h.own t x (hfx t ▸ hx)
  once t := (hfx t).symm ▸ h.once t
  fields := h.fields
  returned := h.returned
  fresh := h.fresh
  nodup := h.nodup

lemma notified (h : s.Linked) (sarb : B) (byteOffset : ℕ) (count : ℤ) (woken : ℕ) (selected : List ℕ) :
    Linked { s with log := s.log ++ [.notified sarb byteOffset count woken selected] } where
  circles b := by
    rw [pending_notified]
    exact h.circles b
  calls x := by
    rw [pending_notified]
    exact h.calls x
  own := h.own
  once := h.once
  fields x hx := h.fields x (by rwa [waits_notified] at hx)
  returned x hx := by
    rw [returns_notified] at hx
    rw [waits_notified]
    exact h.returned x hx
  fresh x hx := h.fresh x (by rwa [waits_notified] at hx)
  nodup := by
    rw [waits_notified]
    exact h.nodup

end Linked

omit [DecidableEq B] in
lemma data_notifyLoop {byteOffset waiters fuel c : ℕ} {count : ℤ} {fx : T → FutexThread (AtomicsWaitCall T B)}
    {selected : List ℕ} {p : (T → FutexThread (AtomicsWaitCall T B)) × List ℕ}
    (h : notifyLoop s byteOffset waiters fuel c count fx selected = some p) (t : T) : (p.1 t).data = (fx t).data := by
  induction fuel generalizing c count fx selected with
  | zero => simp [notifyLoop] at h
  | succ fuel ih =>
    have hupdate (t' : T) : (Function.update fx t' ((fx t').notify .NotifyExplicit).1 t).data = (fx t).data := by
      by_cases ht : t = t'
      · simp [ht]
      · rw [update_of_ne ht]
    unfold notifyLoop at h
    dsimp only at h
    split_ifs at h
    · exact ih h
    · rw [← Option.some.inj h]
    · exact (ih h).trans (hupdate _)
    · rw [← Option.some.inj h]
      exact hupdate _
    · exact (ih h).trans (hupdate _)
    · rw [← Option.some.inj h]
      exact hupdate _

omit [DecidableEq B] in
lemma data_atomicsNotify {sarb : B} {byteOffset : ℕ} {count : ℤ}
    {p : (T → FutexThread (AtomicsWaitCall T B)) × List ℕ} (h : s.atomicsNotify sarb byteOffset count = some p)
    (t : T) : (p.1 t).data = (s.fx t).data := by
  unfold atomicsNotify at h
  split at h
  · split_ifs at h
    · exact data_notifyLoop h t
    · rw [← Option.some.inj h]
  · rw [← Option.some.inj h]

theorem Linked.after (h : s.Linked) {e : AgentEvent T B} (hstep : step e s = some s') : s'.Linked := by
  cases e with
  | wait t sarb byteOffset equal isTimed =>
    simp only [step] at hstep
    split_ifs at hstep
    cases hstep
    unfold atomicsWait
    split_ifs
    · exact h
    · exact h.arrive rfl isTimed
  | wake t expired =>
    obtain ⟨p, hp, rfl⟩ := Option.map_eq_some_iff.1 hstep
    exact h.proceed (FutexThread.proceeds_wake hp) _
  | handled t result =>
    obtain ⟨p, hp, rfl⟩ := Option.map_eq_some_iff.1 hstep
    exact h.proceed (FutexThread.proceeds_handled hp) _
  | reported t =>
    obtain ⟨p, hp, rfl⟩ := Option.map_eq_some_iff.1 hstep
    exact h.proceed (FutexThread.proceeds_reported hp) _
  | interrupt t =>
    simp only [step] at hstep
    split_ifs at hstep
    · cases hstep
      refine h.of_same fun t' => ?_
      by_cases ht : t' = t
      · simp [ht]
      · rw [update_of_ne ht]
    · exact Option.some.inj hstep ▸ h
  | notify t sarb byteOffset count =>
    simp only [step] at hstep
    split_ifs at hstep
    obtain ⟨p, hp, rfl⟩ := Option.map_eq_some_iff.1 hstep
    exact (h.of_same (data_atomicsNotify hp)).notified sarb byteOffset count _ _

lemma linked_init (canWait : T → Bool) (offset : ℕ → ℕ) (cx : ℕ → T) (lower_pri back : ℕ → ℕ) :
    (init canWait offset cx lower_pri back : Agents T B).Linked where
  circles _ := .empty _ _
  calls call := by simp [init, pending, waits, FutexThread.idle, FutexThread.data]
  own t call hcall := by simp [init, FutexThread.idle, FutexThread.data] at hcall
  once t := by simp [init, FutexThread.idle, FutexThread.data]
  fields call hcall := by simp [init, waits] at hcall
  returned call hcall := by simp [init, returns] at hcall
  fresh call hcall := by simp [init, waits] at hcall
  nodup := by simp [init, waits]

end Agents

end SpiderMonkey
