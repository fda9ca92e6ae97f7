import SpiderMonkey.Builtin.PipeTo

/-!
# What a pipe does, and in which order

The invariant of a pipe over all orders of events.  At most one of two reactions keeps the pipe
reading, and at most one of three steps is left of its shutdown.
-/

namespace SpiderMonkey

open List Option

variable {C E : Type}

namespace PipeEffect

def request? : PipeEffect C E → Option (ShutdownRequest E)
  | requested r => some r
  | _ => none

def taken? : PipeEffect C E → Option (ShutdownRequest E)
  | taken r _ _ _ => some r
  | _ => none

/-- The chunk of a read that fulfils before the pipe is shutting down. -/
def readBeforeShutdown? : PipeEffect C E → Option C
  | readFulfilled chunk false => some chunk
  | _ => none

def written? : PipeEffect C E → Option C
  | written chunk => some chunk
  | _ => none

/-- The pending writes when the shutdown is carried on. -/
def pending? : PipeEffect C E → Option (List ℕ)
  | performed _ _ pending => some pending
  | finalized _ pending => some pending
  | _ => none

def isFinalized : PipeEffect C E → Bool
  | finalized _ _ => true
  | _ => false

end PipeEffect

open PipeEffect

namespace Piping

/-- The shutdown requests in order. -/
def requests (s : Piping C E) : List (ShutdownRequest E) := s.log.filterMap request?

/-- The steps of the shutdown that are to come or have been taken. -/
def shutdownSteps (s : Piping C E) : ℕ :=
  s.reactions.lastWrite.length + s.reactions.action.length + s.log.countP isFinalized

end Piping

structure PipeInv (s : Piping C E) : Prop where
  chain : s.reactions.read + s.reactions.ready ≤ 1
  reads : ∀ size shuttingDown, .readStarted size shuttingDown ∈ s.log →
    shuttingDown = false ∧ ∃ d, size = some d ∧ 0 < d
  writes : s.log.filterMap written? = s.log.filterMap readBeforeShutdown?
  noneAfter : s.log.Pairwise fun a b => a.taken?.isSome = true → b.written? = none
  taken : s.log.filterMap taken? = s.requests.take 1
  flag : s.pipe.shuttingDown = false ↔ s.requests = []
  shutdownAction : ∀ r, s.requests.head? = some r → ∀ a, r.action = some a → s.pipe.shutdownAction = a
  lastWrite : ∀ x ∈ s.reactions.lastWrite, ∃ r, s.requests.head? = some r ∧ x.2.1 = r.action.isSome ∧ x.2.2 = r.error
  action : ∀ e ∈ s.reactions.action, ∃ r, s.requests.head? = some r ∧ r.action.isSome = true ∧ e = r.error
  performed : ∀ a e p, .performed a e p ∈ s.log → ∃ r, s.requests.head? = some r ∧ r.action = some a ∧ r.error = e
  /-- Only the promise of an action can replace the error. -/
  finalized : ∀ e p, .finalized e p ∈ s.log → ∃ r, s.requests.head? = some r ∧ (r.action = none → r.error = e)
  once : s.shutdownSteps ≤ 1
  idle : s.pipe.shuttingDown = false → s.shutdownSteps = 0
  lastWriteRequest : s.pipe.lastWriteRequest = none ↔ s.writes = []
  /-- What was not pending when the shutdown began has settled. -/
  pendingLater : ∀ r dest passed pending, .taken r dest passed pending ∈ s.log →
    passed ≤ s.writes.length ∧ ∀ w ∈ s.pendingWrites, w < passed → w ∈ pending
  pendingAfter : s.log.Pairwise fun a b => ∀ r dest passed pending, a = .taken r dest passed pending →
    ∀ p, b.pending? = some p → ∀ w ∈ p, w < passed → w ∈ pending
  pendingBefore : ∀ r dest passed pending, .taken r dest passed pending ∈ s.log → ∀ w ∈ pending, w < passed
  pendingWrites : ∀ w ∈ s.pendingWrites, w < s.writes.length

namespace PipeInv

open Piping

variable {s s' : Piping C E}

lemma requests_append {es : List (PipeEffect C E)} (hlog : s'.log = s.log ++ es) :
    s'.requests = s.requests ++ es.filterMap request? := by
  simp [requests, hlog]

/-- What the new effects, and the state they lead to, have to satisfy. -/
theorem append (h : PipeInv s) {es : List (PipeEffect C E)} (hlog : s'.log = s.log ++ es)
    (hchain : s'.reactions.read + s'.reactions.ready ≤ 1)
    (hreads : ∀ size shuttingDown, .readStarted size shuttingDown ∈ es →
      shuttingDown = false ∧ ∃ d, size = some d ∧ 0 < d)
    (hwrites : es.filterMap written? = es.filterMap readBeforeShutdown?)
    (hnoneAfter : es.Pairwise fun a b => a.taken?.isSome = true → b.written? = none)
    (hnone : s.log.filterMap taken? = [] ∨ ∀ b ∈ es, b.written? = none)
    (htaken : s'.log.filterMap taken? = s'.requests.take 1)
    (hflag : s'.pipe.shuttingDown = false ↔ s'.requests = [])
    (hshutdownAction : ∀ r, s'.requests.head? = some r → ∀ a, r.action = some a → s'.pipe.shutdownAction = a)
    (hlastWrite : ∀ x ∈ s'.reactions.lastWrite, ∃ r, s'.requests.head? = some r ∧
      x.2.1 = r.action.isSome ∧ x.2.2 = r.error)
    (haction : ∀ e ∈ s'.reactions.action, ∃ r, s'.requests.head? = some r ∧ r.action.isSome = true ∧ e = r.error)
    (hperformed : ∀ a e p, .performed a e p ∈ es → ∃ r, s'.requests.head? = some r ∧ r.action = some a ∧ r.error = e)
    (hfinalized : ∀ e p, .finalized e p ∈ es → ∃ r, s'.requests.head? = some r ∧ (r.action = none → r.error = e))
    (honce : s'.shutdownSteps ≤ 1) (hidle : s'.pipe.shuttingDown = false → s'.shutdownSteps = 0)
    (hlastWriteRequest : s'.pipe.lastWriteRequest = none ↔ s'.writes = [])
    (hlength : s.writes.length ≤ s'.writes.length)
    (hpending : ∀ w ∈ s'.pendingWrites, w ∈ s.pendingWrites ∨ s.writes.length ≤ w ∧ w < s'.writes.length)
    (hnow : ∀ r dest passed pending, .taken r dest passed pending ∈ es →
      passed = s'.writes.length ∧ pending = s'.pendingWrites)
    (hpendingAfter : es.Pairwise fun a b => ∀ r dest passed pending, a = .taken r dest passed pending →
      ∀ p, b.pending? = some p → ∀ w ∈ p, w < passed → w ∈ pending)
    (hpendingNow : ∀ e ∈ es, ∀ p, e.pending? = some p → p ⊆ s.pendingWrites) : PipeInv s' := by
  have hhead {r : ShutdownRequest E} (hr : s.requests.head? = some r) : s'.requests.head? = some r := by
    simp [requests_append hlog, hr]
  have hpendingWrites : ∀ w ∈ s'.pendingWrites, w < s'.writes.length := fun w hw =>
    (hpending w hw).elim (fun hold => (h.pendingWrites w hold).trans_le hlength) And.right
  constructor
  case chain => exact hchain
  case reads =>
    intro size shuttingDown hmem
    rw [hlog] at hmem
    exact (mem_append.mp hmem).elim (h.reads size shuttingDown) (hreads size shuttingDown)
  case writes => rw [hlog, filterMap_append, filterMap_append, h.writes, hwrites]
  case noneAfter =>
    rw [hlog]
    refine pairwise_append.mpr ⟨h.noneAfter, hnoneAfter, fun a ha b hb hsome => ?_⟩
    obtain hnil | hnone := hnone
    · rw [filterMap_eq_nil_iff.mp hnil a ha] at hsome
      cases hsome
    · exact hnone b hb
  case taken => exact htaken
  case flag => exact hflag
  case shutdownAction => exact hshutdownAction
  case lastWrite => exact hlastWrite
  case action => exact haction
  case performed =>
    intro a e p hmem
    rw [hlog] at hmem
    refine (mem_append.mp hmem).elim (fun hold => ?_) (hperformed a e p)
    obtain ⟨r, hr, hrest⟩ := h.performed a e p hold
    exact ⟨r, hhead hr, hrest⟩
  case finalized =>
    intro e p hmem
    rw [hlog] at hmem
    refine (mem_append.mp hmem).elim (fun hold => ?_) (hfinalized e p)
    obtain ⟨r, hr, hrest⟩ := h.finalized e p hold
    exact ⟨r, hhead hr, hrest⟩
  case once => exact honce
  case idle => exact hidle
  case lastWriteRequest => exact hlastWriteRequest
  case pendingLater =>
    intro r dest passed pending hmem
    rw [hlog] at hmem
    obtain hold | hmem := mem_append.mp hmem
    · obtain ⟨hle, hlater⟩ := h.pendingLater r dest passed pending hold
      refine ⟨hle.trans hlength, fun w hw hlt => (hpending w hw).elim (fun hw => hlater w hw hlt) fun hw => ?_⟩
      omega
    · obtain ⟨rfl, rfl⟩ := hnow r dest passed pending hmem
      exact ⟨le_rfl, fun w hw _ => hw⟩
  case pendingAfter =>
    rw [hlog]
    refine pairwise_append.mpr ⟨h.pendingAfter, hpendingAfter, ?_⟩
    rintro a ha b hb r dest passed pending rfl p hp w hw
    exact (h.pendingLater r dest passed pending ha).2 w (hpendingNow b hb p hp hw)
  case pendingBefore =>
    intro r dest passed pending hmem
    rw [hlog] at hmem
    obtain hold | hmem := mem_append.mp hmem
    · exact h.pendingBefore r dest passed pending hold
    · obtain ⟨rfl, rfl⟩ := hnow r dest passed pending hmem
      omega
  case pendingWrites => exact hpendingWrites

/-- Effects that are no requests and concern no chunks. -/
def Plain (e : PipeEffect C E) : Prop :=
  e.request? = none ∧ e.taken? = none ∧ e.written? = none ∧ e.readBeforeShutdown? = none

/-- What a change of the reactions with plain effects has to satisfy. -/
structure Extension (s s' : Piping C E) (es : List (PipeEffect C E)) : Prop where
  log : s'.log = s.log ++ es
  plain : ∀ e ∈ es, Plain e
  shuttingDown : s'.pipe.shuttingDown = s.pipe.shuttingDown
  shutdownAction : s'.pipe.shutdownAction = s.pipe.shutdownAction
  lastWriteRequest : s'.pipe.lastWriteRequest = s.pipe.lastWriteRequest
  writes : s'.writes = s.writes
  pendingWrites : s'.pendingWrites ⊆ s.pendingWrites
  chain : s'.reactions.read + s'.reactions.ready ≤ 1
  reads : ∀ size shuttingDown, .readStarted size shuttingDown ∈ es → shuttingDown = false ∧ ∃ d, size = some d ∧ 0 < d
  lastWrite : ∀ x ∈ s'.reactions.lastWrite, ∃ r, s.requests.head? = some r ∧ x.2.1 = r.action.isSome ∧ x.2.2 = r.error
  action : ∀ e ∈ s'.reactions.action, ∃ r, s.requests.head? = some r ∧ r.action.isSome = true ∧ e = r.error
  performed : ∀ a e p, .performed a e p ∈ es → ∃ r, s.requests.head? = some r ∧ r.action = some a ∧ r.error = e
  finalized : ∀ e p, .finalized e p ∈ es → ∃ r, s.requests.head? = some r ∧ (r.action = none → r.error = e)
  once : s'.shutdownSteps ≤ 1
  idle : s.pipe.shuttingDown = false → s'.shutdownSteps = 0
  pendingNow : ∀ e ∈ es, ∀ p, e.pending? = some p → p ⊆ s.pendingWrites

theorem extend (h : PipeInv s) {es : List (PipeEffect C E)} (hs : Extension s s' es) : PipeInv s' := by
  have hrequests : s'.requests = s.requests := by
    simp [requests_append hs.log, filterMap_eq_nil_iff.mpr fun e he => (hs.plain e he).1]
  have hnotTaken (r dest passed pending) : PipeEffect.taken r dest passed pending ∉ es :=
    fun hmem => absurd (hs.plain _ hmem).2.1 (some_ne_none _)
  refine h.append hs.log hs.chain hs.reads ?_ ?_ ?_ ?_ ?_ ?_ ?_ ?_ ?_ ?_ hs.once ?_ ?_ ?_ ?_ ?_ ?_ hs.pendingNow
  · rw [filterMap_eq_nil_iff.mpr fun e he => (hs.plain e he).2.2.1,
      filterMap_eq_nil_iff.mpr fun e he => (hs.plain e he).2.2.2]
  · exact pairwise_of_forall_mem_list fun a _ b hb _ => (hs.plain b hb).2.2.1
  · exact .inr fun b hb => (hs.plain b hb).2.2.1
  · simp [hrequests, hs.log, h.taken, filterMap_eq_nil_iff.mpr fun e he => (hs.plain e he).2.1]
  · rw [hs.shuttingDown, hrequests]
    exact h.flag
  · rw [hrequests, hs.shutdownAction]
    exact h.shutdownAction
  · rw [hrequests]
    exact hs.lastWrite
  · rw [hrequests]
    exact hs.action
  · rw [hrequests]
    exact hs.performed
  · rw [hrequests]
    exact hs.finalized
  · rw [hs.shuttingDown]
    exact hs.idle
  · rw [hs.lastWriteRequest, hs.writes]
    exact h.lastWriteRequest
  · rw [hs.writes]
  · exact fun w hw => .inl (hs.pendingWrites hw)
  · simp [hnotTaken]
  · refine pairwise_of_forall_mem_list fun a ha b _ r dest passed pending heq => ?_
    exact absurd (heq ▸ ha) (hnotTaken r dest passed pending)

/-! ## The steps of a shutdown -/

lemma extension_step {e : PipeEffect C E} (h : PipeInv s) (hdown : s.pipe.shuttingDown = true)
    (hlog : s'.log = s.log ++ [e]) (hplain : Plain e) (hpipe : s'.pipe = s.pipe)
    (hwrites : s'.writes = s.writes) (hpending : s'.pendingWrites = s.pendingWrites)
    (hread : s'.reactions.read = s.reactions.read) (hready : s'.reactions.ready = s.reactions.ready)
    (hreads : ∀ size shuttingDown, e ≠ .readStarted size shuttingDown)
    (hlastWrite : ∀ x ∈ s'.reactions.lastWrite, ∃ r, s.requests.head? = some r ∧
      x.2.1 = r.action.isSome ∧ x.2.2 = r.error)
    (haction : ∀ e ∈ s'.reactions.action, ∃ r, s.requests.head? = some r ∧ r.action.isSome = true ∧ e = r.error)
    (hperformed : ∀ a e' p, e = .performed a e' p → ∃ r, s.requests.head? = some r ∧ r.action = some a ∧ r.error = e')
    (hfinalized : ∀ e' p, e = .finalized e' p → ∃ r, s.requests.head? = some r ∧ (r.action = none → r.error = e'))
    (honce : s'.shutdownSteps ≤ 1)
    (hnow : ∀ p, e.pending? = some p → p ⊆ s.pendingWrites) : Extension s s' [e] where
  log := hlog
  plain := fun _ he => mem_singleton.mp he ▸ hplain
  shuttingDown := by rw [hpipe]
  shutdownAction := by rw [hpipe]
  lastWriteRequest := by rw [hpipe]
  writes := hwrites
  pendingWrites := by rw [hpending]; exact List.Subset.refl _
  chain := by rw [hread, hready]; exact h.chain
  reads := fun _ _ he => absurd (mem_singleton.mp he).symm (hreads _ _)
  lastWrite := hlastWrite
  action := haction
  performed := fun a e' p he => hperformed a e' p (mem_singleton.mp he).symm
  finalized := fun e' p he => hfinalized e' p (mem_singleton.mp he).symm
  once := honce
  idle := fun hidle => absurd (hdown.symm.trans hidle) Bool.noConfusion
  pendingNow := fun e' he => by
    rw [mem_singleton.mp he]
    exact hnow

lemma lastWrite_nil (h0 : s.shutdownSteps = 0) : s.reactions.lastWrite = [] := by
  unfold shutdownSteps at h0
  exact eq_nil_of_length_eq_zero (by omega)

lemma action_nil (h0 : s.shutdownSteps = 0) : s.reactions.action = [] := by
  unfold shutdownSteps at h0
  exact eq_nil_of_length_eq_zero (by omega)

lemma countP_finalized (h0 : s.shutdownSteps = 0) : s.log.countP isFinalized = 0 := by
  unfold shutdownSteps at h0
  omega

lemma finalize_extension (h : PipeInv s) (h0 : s.shutdownSteps = 0)
    (hdown : s.pipe.shuttingDown = true) {error : Option E}
    (herror : ∃ r, s.requests.head? = some r ∧ (r.action = none → r.error = error))
    (heq : Piping.finalize error s = some s') :
    Extension s s' [.finalized error s.pendingWrites] := by
  obtain ⟨-, heq⟩ := ite_none_right_eq_some.mp heq
  cases heq
  refine h.extension_step hdown rfl ⟨rfl, rfl, rfl, rfl⟩ rfl rfl rfl rfl rfl nofun ?_ ?_ nofun ?_ ?_ ?_
  · exact h.lastWrite
  · exact h.action
  · intro e' p he
    cases he
    exact herror
  · have hcount : (s.log ++ [PipeEffect.finalized error s.pendingWrites]).countP isFinalized = 1 := by
      rw [countP_append, countP_finalized h0]
      rfl
    simp [Piping.shutdownSteps, Piping.emit, lastWrite_nil h0, action_nil h0, hcount]
  · rintro p ⟨⟩
    exact List.Subset.refl _

lemma startAction_extension (h : PipeInv s) (h0 : s.shutdownSteps = 0)
    (hdown : s.pipe.shuttingDown = true) {error : Option E}
    (herror : ∃ r, s.requests.head? = some r ∧ r.action.isSome = true ∧ r.error = error) :
    Extension s (s.startAction error) [.performed s.pipe.shutdownAction error s.pendingWrites] := by
  obtain ⟨r, hr, hact, herr⟩ := herror
  obtain ⟨a, ha⟩ := isSome_iff_exists.mp hact
  refine h.extension_step hdown rfl ⟨rfl, rfl, rfl, rfl⟩ rfl rfl rfl rfl rfl nofun ?_ ?_ ?_ nofun ?_ ?_
  · exact h.lastWrite
  · intro e he
    obtain he | he := mem_append.mp he
    · exact h.action e he
    · exact ⟨r, hr, hact, (mem_singleton.mp he).trans herr.symm⟩
  · intro a' e' p he
    cases he
    exact ⟨r, hr, (h.shutdownAction r hr a ha).symm ▸ ha, herr⟩
  · have hcount : (s.log ++ [PipeEffect.performed s.pipe.shutdownAction error s.pendingWrites]).countP
        isFinalized = 0 := by
      rw [countP_append, countP_finalized h0]
      rfl
    simpa [Piping.shutdownSteps, Piping.startAction, Piping.emit, lastWrite_nil h0, action_nil h0, hcount] using le_rfl
  · rintro p ⟨⟩
    exact List.Subset.refl _

lemma actAndFinalize_eq {error : Option E} (heq : actAndFinalize error s = some s') :
    s' = s.startAction error := by
  unfold actAndFinalize at heq
  cases haction : s.pipe.shutdownAction with
  | abortAlgorithm => simp only [haction, reduceCtorEq] at heq
  | abortDestStream =>
    simp only [haction] at heq
    exact (Option.some.inj (ite_none_right_eq_some.mp heq).2).symm
  | cancelSource =>
    simp only [haction] at heq
    exact (Option.some.inj (ite_none_right_eq_some.mp heq).2).symm
  | closeWriterWithErrorPropagation =>
    simp only [haction] at heq
    exact (Option.some.inj (ite_none_right_eq_some.mp heq).2).symm

lemma wait_extension (h : PipeInv s) (h0 : s.shutdownSteps = 0)
    (hdown : s.pipe.shuttingDown = true) {w : ℕ} {act : Bool} {error : Option E}
    (herror : ∃ r, s.requests.head? = some r ∧ act = r.action.isSome ∧ error = r.error) :
    Extension s { s.emit .waits with
      reactions := { s.reactions with
        lastWrite := s.reactions.lastWrite ++ [(w, act, error)] } } [.waits] := by
  refine h.extension_step hdown rfl ⟨rfl, rfl, rfl, rfl⟩ rfl rfl rfl rfl rfl nofun ?_ ?_ nofun nofun ?_ nofun
  · intro x hx
    obtain hx | hx := mem_append.mp hx
    · exact h.lastWrite x hx
    · rw [mem_singleton.mp hx]
      exact herror
  · exact h.action
  · have hcount : (s.log ++ [PipeEffect.waits]).countP isFinalized = 0 := by
      rw [countP_append, countP_finalized h0]
      rfl
    simpa [shutdownSteps, emit, lastWrite_nil h0, action_nil h0, hcount] using le_rfl

end PipeInv

/-! ## Requests -/

/-- A shutdown that has begun waits exactly if the destination is writable with a close request and
there is a write; otherwise it is carried on at once, with the writes that are pending. -/
structure Answered (s : Piping C E) : Prop where
  taken : ∀ r dest passed pending, .taken r dest passed pending ∈ s.log →
    (writableAndNotClosing dest = true ∧ 0 < passed ∧ .waits ∈ s.log) ∨
      (¬(writableAndNotClosing dest = true ∧ 0 < passed) ∧ .waits ∉ s.log ∧
        ∃ e, [.taken r dest passed pending, e].Sublist s.log ∧ e.pending? = some pending)
  idle : s.pipe.shuttingDown = false → .waits ∉ s.log

namespace PipeInv

variable {s s' : Piping C E}

lemma Extension.answered {es : List (PipeEffect C E)} (hs : Extension s s' es) (ha : Answered s)
    (hwaits : .waits ∉ es) : Answered s' := by
  have hno : .waits ∉ s.log → .waits ∉ s'.log := by
    rw [hs.log]
    simp [hwaits]
  constructor
  · intro r dest passed pending hmem
    rw [hs.log] at hmem
    obtain hmem | hmem := mem_append.mp hmem
    · refine (ha.taken r dest passed pending hmem).imp (fun h => ?_) fun h => ⟨h.1, hno h.2.1, ?_⟩
      · rw [hs.log]
        exact ⟨h.1, h.2.1, mem_append_left _ h.2.2⟩
      · obtain ⟨e, he, hp⟩ := h.2.2
        rw [hs.log]
        exact ⟨e, he.trans (sublist_append_left _ _), hp⟩
    · exact absurd (hs.plain _ hmem).2.1 (some_ne_none _)
  · intro hidle
    rw [hs.shuttingDown] at hidle
    exact hno (ha.idle hidle)

lemma request_shuttingDown (h : PipeInv s) (ha : Answered s) (hdown : s.pipe.shuttingDown = true)
    (r : ShutdownRequest E) : PipeInv (s.emit (.requested r)) ∧ Answered (s.emit (.requested r)) := by
  have hne : s.requests ≠ [] := fun hnil =>
    absurd (hdown.symm.trans (h.flag.mpr hnil)) Bool.noConfusion
  have hrequests : (s.emit (.requested r)).requests = s.requests ++ [r] := by
    rw [Piping.requests, Piping.emit, filterMap_append]
    rfl
  have hhead : (s.emit (.requested r)).requests.head? = s.requests.head? := by
    rw [hrequests, head?_append_of_ne_nil _ hne]
  have hmem : ∀ e ∈ (s.emit (.requested r)).log, e = .requested r ∨ e ∈ s.log := by
    intro e he
    exact (mem_append.mp he).symm.imp_left mem_singleton.mp
  have hcount : (s.emit (.requested r)).shutdownSteps = s.shutdownSteps := by
    rw [Piping.shutdownSteps, Piping.emit, countP_append]
    rfl
  constructor
  · refine h.append rfl h.chain (by simp) rfl (pairwise_singleton _ _) (.inr (by simp [written?])) ?_ ?_ ?_ ?_ ?_
      (by simp) (by simp) ?_ ?_ h.lastWriteRequest le_rfl (fun w hw => .inl hw) (by simp) (pairwise_singleton _ _)
      (by simp [pending?])
    · obtain ⟨r', rs, hrs⟩ := exists_cons_of_ne_nil hne
      rw [hrequests, Piping.emit, filterMap_append, h.taken, hrs]
      rfl
    · rw [hrequests]
      exact ⟨fun hidle => absurd (hdown.symm.trans hidle) Bool.noConfusion,
        fun hnil => absurd hnil (append_ne_nil_of_left_ne_nil hne _)⟩
    · rw [hhead]
      exact h.shutdownAction
    · rw [hhead]
      exact h.lastWrite
    · rw [hhead]
      exact h.action
    · rw [hcount]
      exact h.once
    · rw [hcount]
      exact h.idle
  · have hwaits : .waits ∈ (s.emit (.requested r)).log ↔ .waits ∈ s.log :=
      ⟨fun he => (hmem _ he).resolve_left (by simp), fun he => mem_append_left _ he⟩
    refine ⟨fun r' dest passed pending he => ?_, fun hidle => ?_⟩
    · refine (ha.taken r' dest passed pending ((hmem _ he).resolve_left (by simp))).imp ?_ ?_
      · simp [hwaits]
      · rw [hwaits]
        exact fun h' => ⟨h'.1, h'.2.1, h'.2.2.imp fun e he =>
          ⟨he.1.trans (sublist_append_left _ _), he.2⟩⟩
    · cases hdown.symm.trans hidle

section First

variable {r : ShutdownRequest E} {action : ShutdownAction}

variable (h : PipeInv s)

include h

section

variable (hidle : s.pipe.shuttingDown = false)

include hidle

lemma taken_notMem {r' : ShutdownRequest E} {dest : WritableDest E} {passed : ℕ} {pending : List ℕ} :
    .taken r' dest passed pending ∉ s.log := by
  intro hmem
  have htaken : r' ∈ s.log.filterMap taken? := mem_filterMap.mpr ⟨_, hmem, rfl⟩
  rw [h.taken, h.flag.mp hidle, take_nil] at htaken
  cases htaken

lemma requests_setShuttingDown : ((s.emit (.requested r)).setShuttingDown r action).requests = [r] := by
  have hnil := h.flag.mp hidle
  rw [Piping.requests] at hnil
  simp only [Piping.requests, Piping.setShuttingDown, Piping.emit, filterMap_append, hnil]
  rfl

lemma shutdownSteps_setShuttingDown : ((s.emit (.requested r)).setShuttingDown r action).shutdownSteps = 0 := by
  have h0 := h.idle hidle
  simp only [Piping.shutdownSteps, Piping.setShuttingDown, Piping.emit, countP_append,
    lastWrite_nil h0, action_nil h0, countP_finalized h0]
  rfl

lemma request_first (haction : ∀ a, r.action = some a → action = a) :
    PipeInv ((s.emit (.requested r)).setShuttingDown r action) := by
  have h0 := h.idle hidle
  have hrequests := @requests_setShuttingDown _ _ _ r action h hidle
  have hsteps := @shutdownSteps_setShuttingDown _ _ _ r action h hidle
  have hnil := h.taken
  rw [h.flag.mp hidle, take_nil] at hnil
  have hlog : ((s.emit (.requested r)).setShuttingDown r action).log =
      s.log ++ [PipeEffect.requested r, PipeEffect.taken r s.dest s.writes.length s.pendingWrites] :=
    append_assoc _ _ _
  refine h.append hlog h.chain (by simp) rfl (by simp [written?]) (.inl hnil) ?_ ?_ ?_ ?_ ?_ (by simp) (by simp) ?_
    (fun _ => hsteps) h.lastWriteRequest le_rfl (fun w hw => .inl hw) ?_ (by simp) (by simp [pending?])
  · rw [hrequests, hlog, filterMap_append, hnil]
    rfl
  · rw [hrequests]
    exact ⟨nofun, nofun⟩
  · rw [hrequests]
    rintro r' ⟨⟩ a ha
    exact haction a ha
  · show ∀ x ∈ s.reactions.lastWrite, _
    simp [lastWrite_nil h0]
  · show ∀ x ∈ s.reactions.action, _
    simp [action_nil h0]
  · omega
  · intro r' dest passed pending hmem
    obtain ⟨-, -, rfl, rfl⟩ : r' = r ∧ dest = s.dest ∧ passed = s.writes.length ∧ pending = s.pendingWrites := by
      simpa using hmem
    exact ⟨rfl, rfl⟩

end

lemma afterLastWrite_spec (ha : Answered s) (hidle : s.pipe.shuttingDown = false)
    (haction : ∀ a, r.action = some a → action = a)
    {proceed : Piping C E → Option (Piping C E)}
    (hproceed : ∀ s₁ s₂, PipeInv s₁ → s₁.shutdownSteps = 0 → s₁.pipe.shuttingDown = true →
      s₁.requests.head? = some r → proceed s₁ = some s₂ →
      ∃ e, Extension s₁ s₂ [e] ∧ e.pending? = some s₁.pendingWrites)
    (heq : Piping.afterLastWrite r.action.isSome r.error proceed
      ((s.emit (.requested r)).setShuttingDown r action) = some s') :
    PipeInv s' ∧ Answered s' := by
  have hinv := h.request_first hidle haction
  have hsteps := @shutdownSteps_setShuttingDown _ _ _ r action h hidle
  have hhead : ((s.emit (.requested r)).setShuttingDown r action).requests.head? = some r := by
    simp [h.requests_setShuttingDown hidle]
  have hwaits : .waits ∉ ((s.emit (.requested r)).setShuttingDown r action).log := by
    simpa [Piping.setShuttingDown, Piping.emit] using ha.idle hidle
  have hlast : ((s.emit (.requested r)).setShuttingDown r action).log =
      (s.emit (.requested r)).log ++ [PipeEffect.taken r s.dest s.writes.length s.pendingWrites] := rfl
  -- the request that takes effect is the only one
  have honly : ∀ {es : List (PipeEffect C E)} {s₂ : Piping C E},
      Extension ((s.emit (.requested r)).setShuttingDown r action) s₂ es →
      ∀ r' dest passed pending, .taken r' dest passed pending ∈ s₂.log →
        r' = r ∧ dest = s.dest ∧ passed = s.writes.length ∧ pending = s.pendingWrites := by
    intro es s₂ hext r' dest passed pending hmem
    rw [hext.log, hlast] at hmem
    obtain hmem | hmem := mem_append.mp hmem
    · obtain hmem | hmem := mem_append.mp hmem
      · obtain hmem | hmem := mem_append.mp hmem
        · exact absurd hmem (h.taken_notMem hidle)
        · cases mem_singleton.mp hmem
      · exact PipeEffect.taken.inj (mem_singleton.mp hmem)
    · exact absurd (hext.plain _ hmem).2.1 (some_ne_none _)
  -- carrying on at once
  have hnow : ¬(writableAndNotClosing s.dest = true ∧ 0 < s.writes.length) →
      proceed ((s.emit (.requested r)).setShuttingDown r action) = some s' →
      PipeInv s' ∧ Answered s' := by
    intro hcase heq
    obtain ⟨e, hext, hpending⟩ := hproceed _ _ hinv hsteps rfl hhead heq
    refine ⟨hinv.extend hext, fun r' dest passed pending hmem => ?_, fun hfalse => ?_⟩
    · obtain ⟨rfl, rfl, rfl, rfl⟩ := honly hext r' dest passed pending hmem
      rw [hext.log]
      refine .inr ⟨hcase, fun hmem => ?_, e, ?_, hpending⟩
      · obtain hmem | hmem := mem_append.mp hmem
        · exact hwaits hmem
        · rw [← mem_singleton.mp hmem] at hpending
          cases hpending
      · simp [hlast]
    · rw [hext.shuttingDown] at hfalse
      cases hfalse
  obtain ⟨-, heq⟩ := ite_none_right_eq_some.mp heq
  by_cases hwritable : writableAndNotClosing s.dest = true
  · have hwritable' : writableAndNotClosing
        ((s.emit (.requested r)).setShuttingDown r action).dest = true := hwritable
    rw [if_pos hwritable'] at heq
    cases hrequest : s.pipe.lastWriteRequest with
    | none =>
      have hrequest' : ((s.emit (.requested r)).setShuttingDown r action).pipe.lastWriteRequest = none := hrequest
      simp only [hrequest'] at heq
      refine hnow (fun hcase => ?_) heq
      rw [h.lastWriteRequest.mp hrequest] at hcase
      exact absurd hcase.2 (Nat.not_lt_zero _)
    | some w =>
      have hrequest' : ((s.emit (.requested r)).setShuttingDown r action).pipe.lastWriteRequest = some w := hrequest
      simp only [hrequest'] at heq
      cases heq
      have hext := @wait_extension _ _ _ hinv hsteps rfl w r.action.isSome r.error
        ⟨r, hhead, rfl, rfl⟩
      refine ⟨hinv.extend hext, fun r' dest passed pending hmem => ?_, nofun⟩
      obtain ⟨-, rfl, rfl, -⟩ := honly hext r' dest passed pending hmem
      refine .inl ⟨hwritable, length_pos_iff.mpr fun hnil => ?_, mem_append_right _ (mem_singleton_self _)⟩
      cases hrequest.symm.trans (h.lastWriteRequest.mpr hnil)
  · have hwritable' : ¬writableAndNotClosing
        ((s.emit (.requested r)).setShuttingDown r action).dest = true := hwritable
    rw [if_neg hwritable'] at heq
    exact hnow (fun hcase => hwritable hcase.1) heq

end First

section

variable (h : PipeInv s)

include h

lemma shutdown_spec (ha : Answered s) {error : Option E}
    (heq : Piping.shutdown error s = some s') : PipeInv s' ∧ Answered s' := by
  unfold Piping.shutdown at heq
  cases hdown : s.pipe.shuttingDown with
  | true =>
    rw [if_pos (show (s.emit _).pipe.shuttingDown = true from hdown)] at heq
    cases heq
    exact h.request_shuttingDown ha hdown _
  | false =>
    rw [if_neg (show ¬(s.emit _).pipe.shuttingDown = true by rw [Piping.emit, hdown]; nofun)] at heq
    refine @afterLastWrite_spec _ _ _ _ ⟨none, error⟩ _ h ha hdown nofun _ (fun s₁ s₂ h₁ h0 hd hr he => ?_) heq
    exact ⟨_, h₁.finalize_extension h0 hd ⟨_, hr, fun _ => rfl⟩ he, rfl⟩

lemma shutdownWithAction_spec (ha : Answered s) {action : ShutdownAction}
    {error : Option E} (heq : Piping.shutdownWithAction action error s = some s') :
    PipeInv s' ∧ Answered s' := by
  unfold Piping.shutdownWithAction at heq
  cases hdown : s.pipe.shuttingDown with
  | true =>
    rw [if_pos (show (s.emit _).pipe.shuttingDown = true from hdown)] at heq
    cases heq
    exact h.request_shuttingDown ha hdown _
  | false =>
    rw [if_neg (show ¬(s.emit _).pipe.shuttingDown = true by rw [Piping.emit, hdown]; nofun)] at heq
    refine @afterLastWrite_spec _ _ _ _ ⟨some action, error⟩ action h ha hdown
      (fun a ha' => Option.some.inj ha') _ (fun s₁ s₂ h₁ h0 hd hr he => ?_) heq
    rw [actAndFinalize_eq he]
    exact ⟨_, h₁.startAction_extension h0 hd ⟨_, hr, rfl, rfl⟩, rfl⟩

/-! ## Reading and writing -/

lemma extension_nil (hlog : s'.log = s.log) (hshuttingDown : s'.pipe.shuttingDown = s.pipe.shuttingDown)
    (hshutdownAction : s'.pipe.shutdownAction = s.pipe.shutdownAction)
    (hrequest : s'.pipe.lastWriteRequest = s.pipe.lastWriteRequest) (hwrites : s'.writes = s.writes)
    (hpending : s'.pendingWrites ⊆ s.pendingWrites)
    (hchain : s'.reactions.read + s'.reactions.ready ≤ 1)
    (hlastWrite : s'.reactions.lastWrite.Sublist s.reactions.lastWrite)
    (haction : s'.reactions.action.Sublist s.reactions.action) : Extension s s' [] := by
  have hsteps : s'.shutdownSteps ≤ s.shutdownSteps := by
    have hle := hlastWrite.length_le
    have hle' := haction.length_le
    simp only [Piping.shutdownSteps, hlog]
    omega
  exact {
    log := by simp [hlog]
    plain := nofun
    shuttingDown := hshuttingDown
    shutdownAction := hshutdownAction
    lastWriteRequest := hrequest
    writes := hwrites
    pendingWrites := hpending
    chain := hchain
    reads := nofun
    lastWrite := fun x hx => h.lastWrite x (hlastWrite.subset hx)
    action := fun e he => h.action e (haction.subset he)
    performed := nofun
    finalized := nofun
    once := hsteps.trans h.once
    idle := fun hidle => Nat.le_zero.mp (hsteps.trans (h.idle hidle).le)
    pendingNow := nofun }

section

variable (ha : Answered s)

include ha

lemma readFromSource_spec (hchain : s.reactions.read + s.reactions.ready = 0)
    (heq : Piping.readFromSource s = some s') : PipeInv s' ∧ Answered s' := by
  obtain ⟨-, heq⟩ := ite_none_left_eq_some.mp heq
  cases hdown : s.pipe.shuttingDown with
  | true =>
    rw [if_pos hdown] at heq
    cases heq
    exact ⟨h, ha⟩
  | false =>
    rw [if_neg (Bool.eq_false_iff.mp hdown)] at heq
    obtain ⟨-, heq⟩ := ite_none_right_eq_some.mp heq
    cases hsize : getDesiredSize s.dest with
    | none =>
      simp only [hsize] at heq
      cases heq
      exact ⟨h, ha⟩
    | some d =>
      simp only [hsize] at heq
      by_cases hd : d ≤ 0
      · rw [if_pos hd] at heq
        cases heq
        have hext : Extension s { s with reactions :=
            { s.reactions with ready := s.reactions.ready + 1 } } [] :=
          h.extension_nil rfl rfl rfl rfl rfl (List.Subset.refl _) (by show s.reactions.read + (s.reactions.ready + 1) ≤ 1; omega)
            (List.Sublist.refl _) (List.Sublist.refl _)
        exact ⟨h.extend hext, hext.answered ha not_mem_nil⟩
      · rw [if_neg hd] at heq
        obtain ⟨-, heq⟩ := ite_none_right_eq_some.mp heq
        cases heq
        have hcount : (s.log ++ [PipeEffect.readStarted (some d) s.pipe.shuttingDown]).countP
            isFinalized = s.log.countP isFinalized := by
          rw [countP_append]
          rfl
        have hext : Extension s { s.emit (.readStarted (some d) s.pipe.shuttingDown) with
            pipe := { s.pipe with pendingRead := true }
            reactions := { s.reactions with read := s.reactions.read + 1 } }
            [.readStarted (some d) s.pipe.shuttingDown] := {
          log := rfl
          plain := fun _ he => mem_singleton.mp he ▸ ⟨rfl, rfl, rfl, rfl⟩
          shuttingDown := rfl
          shutdownAction := rfl
          lastWriteRequest := rfl
          writes := rfl
          pendingWrites := List.Subset.refl _
          chain := by show s.reactions.read + 1 + s.reactions.ready ≤ 1; omega
          reads := by
            intro size shuttingDown he
            cases mem_singleton.mp he
            exact ⟨hdown, d, rfl, not_le.mp hd⟩
          lastWrite := h.lastWrite
          action := h.action
          performed := fun _ _ _ he => absurd (mem_singleton.mp he) nofun
          finalized := fun _ _ he => absurd (mem_singleton.mp he) nofun
          once := by
            simp only [Piping.shutdownSteps, Piping.emit, hcount]
            exact h.once
          idle := by
            intro hidle
            simp only [Piping.shutdownSteps, Piping.emit, hcount]
            exact h.idle hidle
          pendingNow := by
            intro e he
            rw [mem_singleton.mp he]
            nofun }
        exact ⟨h.extend hext, hext.answered ha fun he => absurd (mem_singleton.mp he) nofun⟩

lemma writerWrite_spec (hidle : s.pipe.shuttingDown = false)
    {chunk : C} {sized after : WritableDest E}
    (heq : Piping.writerWrite chunk sized after (s.emit (.readFulfilled chunk false)) = some s') :
    PipeInv s' ∧ Answered s' ∧ s'.reactions = s.reactions := by
  obtain ⟨-, heq⟩ := ite_none_right_eq_some.mp heq
  cases heq
  have hlog : (s.log ++ [PipeEffect.readFulfilled chunk false]) ++ [PipeEffect.written chunk] =
      s.log ++ [PipeEffect.readFulfilled chunk false, PipeEffect.written chunk] := append_assoc _ _ _
  have hold : ∀ e ∈ (s.log ++ [PipeEffect.readFulfilled chunk false]) ++ [PipeEffect.written chunk],
      e ≠ .readFulfilled chunk false → e ≠ .written chunk → e ∈ s.log := by
    intro e he hne hne'
    simpa [hne, hne'] using he
  have hrequests : ((s.log ++ [PipeEffect.readFulfilled chunk false]) ++
      [PipeEffect.written chunk]).filterMap request? = s.requests := by
    simp [Piping.requests, request?]
  have hcount : ((s.log ++ [PipeEffect.readFulfilled chunk false]) ++
      [PipeEffect.written chunk]).countP isFinalized = s.log.countP isFinalized := by
    simp [isFinalized]
  have hnil := h.taken
  rw [h.flag.mp hidle, take_nil] at hnil
  have hpending : ∀ w ∈ (if sized.state == .writable && !sized.closeQueuedOrInFlight then
      s.pendingWrites ++ [s.writes.length] else s.pendingWrites), w ∈ s.pendingWrites ∨
        s.writes.length ≤ w ∧ w < (s.writes ++ [chunk]).length := by
    intro w hw
    split at hw
    · refine (mem_append.mp hw).imp_right fun hw => ?_
      rw [mem_singleton.mp hw]
      simp
    · exact .inl hw
  refine ⟨?_, ⟨fun r dest passed pending he => ?_, fun _ he => ?_⟩, rfl⟩
  · refine h.append hlog h.chain (by simp) rfl (by simp [taken?]) (.inl hnil) ?_ ?_ ?_ ?_ ?_ (by simp) (by simp) ?_ ?_
      ?_ (by simp [Piping.emit]) hpending (by simp) (by simp) (by simp [pending?])
    · show List.filterMap taken? ((s.log ++ [_]) ++ [_]) = (List.filterMap request? ((s.log ++ [_]) ++ [_])).take 1
      rw [hrequests, ← h.taken, hlog, filterMap_append]
      exact append_nil _
    · show _ ↔ List.filterMap request? ((s.log ++ [_]) ++ [_]) = []
      rw [hrequests]
      exact h.flag
    · show ∀ r, (List.filterMap request? ((s.log ++ [_]) ++ [_])).head? = some r → _
      rw [hrequests]
      exact h.shutdownAction
    · show ∀ x ∈ s.reactions.lastWrite, _
      simp [lastWrite_nil (h.idle hidle)]
    · show ∀ x ∈ s.reactions.action, _
      simp [action_nil (h.idle hidle)]
    · show _ + _ + List.countP isFinalized ((s.log ++ [_]) ++ [_]) ≤ 1
      rw [hcount]
      exact h.once
    · intro hidle
      show _ + _ + List.countP isFinalized ((s.log ++ [_]) ++ [_]) = 0
      rw [hcount]
      exact h.idle hidle
    · simp
  · exact absurd (hold _ he nofun nofun) (h.taken_notMem hidle)
  · exact ha.idle hidle (hold _ he nofun nofun)

/-! ## Handlers -/

lemma shutdownOr_spec {prevent : Bool} {action : ShutdownAction} {error : Option E}
    (heq : (if prevent then Piping.shutdown error s else Piping.shutdownWithAction action error s) = some s') :
    PipeInv s' ∧ Answered s' := by
  split at heq
  · exact h.shutdown_spec ha heq
  · exact h.shutdownWithAction_spec ha heq

lemma processRead_spec (hchain : s.reactions.read + s.reactions.ready = 0) {result : Option C}
    {sized after : WritableDest E} (heq : Piping.processRead result sized after s = some s') :
    PipeInv s' ∧ Answered s' := by
  unfold Piping.processRead at heq
  cases hdown : s.pipe.shuttingDown with
  | true =>
    cases result with
    | none =>
      simp only [if_pos hdown] at heq
      cases heq
      exact ⟨h, ha⟩
    | some chunk =>
      simp only [if_pos hdown] at heq
      cases heq
      have hcount : (s.log ++ [PipeEffect.readFulfilled chunk true]).countP isFinalized = s.log.countP isFinalized := by
        rw [countP_append]
        rfl
      have hext : Extension s (s.emit (.readFulfilled chunk true)) [.readFulfilled chunk true] := by
        refine h.extension_step hdown rfl ⟨rfl, rfl, rfl, rfl⟩ rfl rfl rfl rfl rfl nofun h.lastWrite
          h.action nofun nofun ?_ nofun
        simp only [Piping.shutdownSteps, Piping.emit, hcount]
        exact h.once
      exact ⟨h.extend hext, hext.answered ha fun he => absurd (mem_singleton.mp he) nofun⟩
  | false =>
    have hnot : ¬s.pipe.shuttingDown = true := Bool.eq_false_iff.mp hdown
    cases result with
    | none =>
      simp only [if_neg hnot] at heq
      exact h.shutdownOr_spec ha heq
    | some chunk =>
      simp only [if_neg hnot] at heq
      obtain ⟨s₂, hwrite, hread⟩ := bind_eq_some_iff.mp heq
      obtain ⟨h₂, ha₂, hreactions⟩ := h.writerWrite_spec ha hdown hwrite
      exact h₂.readFromSource_spec ha₂ (by rw [hreactions]; exact hchain) hread

lemma readFulfilled_spec (hchain : s.reactions.read + s.reactions.ready = 0) {result : Option C}
    {sized after : WritableDest E} (heq : Piping.readFulfilled result sized after s = some s') :
    PipeInv s' ∧ Answered s' := by
  obtain ⟨-, heq⟩ := ite_none_right_eq_some.mp heq
  have hext : Extension s s.clearPendingRead [] :=
    h.extension_nil rfl rfl rfl rfl rfl (List.Subset.refl _) h.chain (List.Sublist.refl _)
      (List.Sublist.refl _)
  exact (h.extend hext).processRead_spec (hext.answered ha not_mem_nil) hchain heq

/-! ## Events -/

end

end

lemma of_count {n : ℕ} {f : ℕ → Option (Piping C E)} (heq : (match n with | 0 => none | k + 1 => f k) = some s') :
    ∃ k, n = k + 1 ∧ f k = some s' := by
  cases n with
  | zero => cases heq
  | succ k => exact ⟨k, rfl, heq⟩

lemma ne_zero_of_count {n : ℕ} {f : ℕ → Option (Piping C E)}
    (heq : (match n with | 0 => none | k + 1 => f k) = some s') : n ≠ 0 ∧ ∃ k, f k = some s' := by
  obtain ⟨k, rfl, hk⟩ := of_count heq
  exact ⟨k.succ_ne_zero, k, hk⟩

lemma shuttingDown_of_head (h : PipeInv s) {r : ShutdownRequest E}
    (hr : s.requests.head? = some r) : s.pipe.shuttingDown = true := by
  by_contra hdown
  rw [h.flag.mp (Bool.not_eq_true _ ▸ hdown)] at hr
  cases hr

lemma consume (h : PipeInv s) (ha : Answered s) {reactions : PipeReactions E}
    (hchain : reactions.read + reactions.ready ≤ s.reactions.read + s.reactions.ready)
    (hlastWrite : reactions.lastWrite.Sublist s.reactions.lastWrite)
    (haction : reactions.action.Sublist s.reactions.action) :
    PipeInv { s with reactions := reactions } ∧ Answered { s with reactions := reactions } := by
  have hext : Extension s { s with reactions := reactions } [] :=
    h.extension_nil rfl rfl rfl rfl rfl (List.Subset.refl _) (hchain.trans h.chain) hlastWrite haction
  exact ⟨h.extend hext, hext.answered ha not_mem_nil⟩

theorem pipeStep_spec {destClosed : E} (e : PipeEvent C E) (h : PipeInv s) (ha : Answered s)
    (heq : pipeStep destClosed e s = some s') : PipeInv s' ∧ Answered s' := by
  have hchain := h.chain
  cases e with
  | streams source dest =>
    cases heq
    have hext : Extension s { s with source := source, dest := dest } [] :=
      h.extension_nil rfl rfl rfl rfl rfl (List.Subset.refl _) h.chain (List.Sublist.refl _)
        (List.Sublist.refl _)
    exact ⟨h.extend hext, hext.answered ha not_mem_nil⟩
  | settleWrite =>
    rw [pipeStep] at heq
    cases hpending : s.pendingWrites with
    | nil => simp only [hpending, reduceCtorEq] at heq
    | cons w ws =>
      simp only [hpending] at heq
      cases heq
      have hext : Extension s { s with pendingWrites := ws } [] :=
        h.extension_nil rfl rfl rfl rfl rfl (by rw [hpending]; exact subset_cons_self w ws)
          h.chain (List.Sublist.refl _) (List.Sublist.refl _)
      exact ⟨h.extend hext, hext.answered ha not_mem_nil⟩
  | readFulfilled result sized after =>
    obtain ⟨n, hread, heq⟩ := of_count heq
    obtain ⟨h₁, ha₁⟩ := @consume _ _ _ h ha { s.reactions with read := n }
      (by show n + s.reactions.ready ≤ _; omega) (List.Sublist.refl _) (List.Sublist.refl _)
    exact h₁.readFulfilled_spec ha₁ (by show n + s.reactions.ready = 0; omega) heq
  | readRejected =>
    obtain ⟨n, hread, heq⟩ := of_count heq
    obtain ⟨-, heq⟩ := ite_none_left_eq_some.mp heq
    cases heq
    have hext : Extension s { s with
        reactions := { s.reactions with read := n }
        pipe := { s.pipe with pendingReadWouldBeRejected := true } } [] :=
      h.extension_nil rfl rfl rfl rfl rfl (List.Subset.refl _)
        (by show n + s.reactions.ready ≤ 1; omega) (List.Sublist.refl _) (List.Sublist.refl _)
    exact ⟨h.extend hext, hext.answered ha not_mem_nil⟩
  | ready =>
    obtain ⟨n, hready, heq⟩ := of_count heq
    obtain ⟨h₁, ha₁⟩ := @consume _ _ _ h ha { s.reactions with ready := n }
      (by show s.reactions.read + n ≤ _; omega) (List.Sublist.refl _) (List.Sublist.refl _)
    exact h₁.readFromSource_spec ha₁ (by show s.reactions.read + n = 0; omega) heq
  | sourceClosed =>
    obtain ⟨n, -, heq⟩ := of_count heq
    obtain ⟨h₁, ha₁⟩ := @consume _ _ _ h ha { s.reactions with sourceClosed := n } le_rfl
      (List.Sublist.refl _) (List.Sublist.refl _)
    exact h₁.shutdownOr_spec ha₁ heq
  | sourceErrored =>
    obtain ⟨n, -, heq⟩ := of_count heq
    obtain ⟨h₁, ha₁⟩ := @consume _ _ _ h ha { s.reactions with sourceClosed := n } le_rfl
      (List.Sublist.refl _) (List.Sublist.refl _)
    exact h₁.shutdownOr_spec ha₁ (ite_none_right_eq_some.mp heq).2
  | destClosed =>
    obtain ⟨n, -, heq⟩ := of_count heq
    obtain ⟨h₁, ha₁⟩ := @consume _ _ _ h ha { s.reactions with destClosed := n } le_rfl
      (List.Sublist.refl _) (List.Sublist.refl _)
    exact h₁.shutdownOr_spec ha₁ heq
  | destErrored =>
    obtain ⟨n, -, heq⟩ := of_count heq
    obtain ⟨h₁, ha₁⟩ := @consume _ _ _ h ha { s.reactions with destClosed := n } le_rfl
      (List.Sublist.refl _) (List.Sublist.refl _)
    exact h₁.shutdownOr_spec ha₁ (ite_none_right_eq_some.mp heq).2
  | lastWriteSettled =>
    rw [pipeStep] at heq
    cases hlast : s.reactions.lastWrite with
    | nil => simp only [hlast, reduceCtorEq] at heq
    | cons x rest =>
      obtain ⟨w, act, error⟩ := x
      simp only [hlast] at heq
      obtain ⟨-, heq⟩ := ite_none_left_eq_some.mp heq
      obtain ⟨r, hr, hact, herr⟩ := h.lastWrite (w, act, error) (hlast ▸ mem_cons_self)
      have hdown := h.shuttingDown_of_head hr
      obtain ⟨h₁, ha₁⟩ := @consume _ _ _ h ha { s.reactions with lastWrite := rest } le_rfl
        (by rw [hlast]; exact sublist_cons_self _ _) (List.Sublist.refl _)
      have honce := h.once
      simp only [Piping.shutdownSteps, hlast, length_cons] at honce
      have h0 : Piping.shutdownSteps { s with
          reactions := { s.reactions with lastWrite := rest } } = 0 := by
        show rest.length + s.reactions.action.length + s.log.countP isFinalized = 0
        omega
      cases act with
      | true =>
        have heq' : Piping.actAndFinalize error { s with
            reactions := { s.reactions with lastWrite := rest } } = some s' := heq
        rw [actAndFinalize_eq heq']
        have hext := h₁.startAction_extension h0 hdown ⟨r, hr, hact.symm, herr.symm⟩
        exact ⟨h₁.extend hext, hext.answered ha₁ fun he => absurd (mem_singleton.mp he) nofun⟩
      | false =>
        have heq' : Piping.finalize error { s with
            reactions := { s.reactions with lastWrite := rest } } = some s' := heq
        have hext := h₁.finalize_extension h0 hdown ⟨r, hr, fun _ => herr.symm⟩ heq'
        exact ⟨h₁.extend hext, hext.answered ha₁ fun he => absurd (mem_singleton.mp he) nofun⟩
  | actionSettled newError =>
    rw [pipeStep] at heq
    cases haction : s.reactions.action with
    | nil => simp only [haction, reduceCtorEq] at heq
    | cons error rest =>
      simp only [haction] at heq
      obtain ⟨r, hr, hact, herr⟩ := h.action error (haction ▸ mem_cons_self)
      have hdown := h.shuttingDown_of_head hr
      obtain ⟨h₁, ha₁⟩ := @consume _ _ _ h ha { s.reactions with action := rest } le_rfl
        (List.Sublist.refl _) (by rw [haction]; exact sublist_cons_self _ _)
      have honce := h.once
      simp only [Piping.shutdownSteps, haction, length_cons] at honce
      have h0 : Piping.shutdownSteps { s with
          reactions := { s.reactions with action := rest } } = 0 := by
        show s.reactions.lastWrite.length + rest.length + s.log.countP isFinalized = 0
        omega
      have hfinal : ∃ error', Piping.finalize error' { s with
          reactions := { s.reactions with action := rest } } = some s' := by
        cases newError with
        | none => exact ⟨_, heq⟩
        | some e => exact ⟨_, heq⟩
      obtain ⟨error', heq'⟩ := hfinal
      have hext := h₁.finalize_extension h0 hdown
        ⟨r, hr, fun hnone => absurd (hnone ▸ hact) Bool.noConfusion⟩ heq'
      exact ⟨h₁.extend hext, hext.answered ha₁ fun he => absurd (mem_singleton.mp he) nofun⟩

lemma startPiping_spec (h : PipeInv s) (ha : Answered s) {destClosed : E}
    (hchain : s.reactions.read + s.reactions.ready = 0)
    (heq : Piping.startPiping destClosed s = some s') : PipeInv s' ∧ Answered s' := by
  unfold Piping.startPiping at heq
  unfold Piping.sourceOrDestErroredOrClosed at heq
  split_ifs at heq
  · exact h.shutdownOr_spec ha heq
  · exact h.shutdownOr_spec ha heq
  · exact h.shutdownOr_spec ha heq
  · exact h.shutdownOr_spec ha heq
  have hext : Extension s { s with reactions := { s.reactions with
      sourceClosed := s.reactions.sourceClosed + 1
      destClosed := s.reactions.destClosed + 1 } } [] :=
    h.extension_nil rfl rfl rfl rfl rfl (List.Subset.refl _) h.chain (List.Sublist.refl _)
      (List.Sublist.refl _)
  exact (h.extend hext).readFromSource_spec (hext.answered ha not_mem_nil) hchain heq

lemma of_create {destClosed : E} {preventClose preventAbort preventCancel : Bool} {source : ReadableSource E}
    {dest : WritableDest E}
    (hcreate : Piping.create destClosed preventClose preventAbort preventCancel source dest = some s) :
    PipeInv s ∧ Answered s := by
  refine startPiping_spec ?_ ?_ rfl hcreate
  · constructor
    case chain => exact Nat.zero_le 1
    case reads => exact nofun
    case writes => rfl
    case noneAfter => exact List.Pairwise.nil
    case taken => rfl
    case flag => exact ⟨fun _ => rfl, fun _ => rfl⟩
    case shutdownAction => exact fun _ hr => absurd hr (some_ne_none _).symm
    case lastWrite => exact nofun
    case action => exact nofun
    case performed => exact nofun
    case finalized => exact nofun
    case once => exact Nat.zero_le 1
    case idle => exact fun _ => rfl
    case lastWriteRequest => exact ⟨fun _ => rfl, fun _ => rfl⟩
    case pendingLater => exact nofun
    case pendingAfter => exact List.Pairwise.nil
    case pendingBefore => exact nofun
    case pendingWrites => exact nofun
  · exact ⟨nofun, fun _ => not_mem_nil⟩

theorem of_reached {destClosed : E} (h : Piping.Reached destClosed s) : PipeInv s ∧ Answered s := by
  obtain ⟨preventClose, preventAbort, preventCancel, source, dest, events, s₀, hcreate, hrun⟩ := h
  exact EventRun.invariant (I := fun s => PipeInv s ∧ Answered s)
    (fun e s s' hs heq => pipeStep_spec e hs.1 hs.2 heq) (of_create hcreate) hrun

end PipeInv

/-! ## The order of a pipe's effects -/

section Run

/-- A destination with high water mark 1 and this desired size. -/
def openDest (size : DesiredSize) : WritableDest ℕ := ⟨.writable, false, size, 0⟩

def pipeEvents : List (PipeEvent ℕ ℕ) :=
  [.readFulfilled (some 7) (openDest 1) (openDest 0), .streams ⟨.closed, 0⟩ (openDest 0), .sourceClosed]

/-- A chunk is written, and the source closes before the write settles. -/
def pipeRun : Option (Piping ℕ ℕ) :=
  (Piping.create 1 false false false ⟨.readable, 0⟩ (openDest 1)).bind
    (EventRun.run (pipeStep 1) pipeEvents)

lemma reached_of_pipeRun {s : Piping ℕ ℕ} (h : pipeRun = some s) : Piping.Reached 1 s := by
  obtain ⟨s₀, hs₀, hrun⟩ := bind_eq_some_iff.mp h
  exact ⟨false, false, false, ⟨.readable, 0⟩, openDest 1, pipeEvents, s₀, hs₀, hrun⟩

lemma log_pipeRun : pipeRun.map Piping.log = some [.readStarted (some 1) false, .readFulfilled 7 false, .written 7,
      .requested ⟨some .closeWriterWithErrorPropagation, none⟩,
      .taken ⟨some .closeWriterWithErrorPropagation, none⟩ (openDest 0) 1 [0],
      .performed .closeWriterWithErrorPropagation none [0]] := rfl

end Run

/-! ## Waiting for writes -/

variable (log : List (PipeEffect C E))

/-- A shutdown that finds the destination writable and not closing, with chunks written, is carried on
only when these writes have settled. -/
def WaitsForWrites : Prop :=
  log.Pairwise fun a b => ∀ r dest passed pending, a = .taken r dest passed pending →
    dest.state = .writable → dest.closeQueuedOrInFlight = false → 0 < passed →
      ∀ p, b.pending? = some p → ∀ w < passed, w ∉ p

/-- A shutdown that finds the destination not writable, or closing, is carried on at once. -/
def ProceedsAtOnce : Prop :=
  ∀ r dest passed pending, .taken r dest passed pending ∈ log →
    dest.state ≠ .writable ∨ dest.closeQueuedOrInFlight = true →
      .waits ∉ log ∧ ∃ e, [.taken r dest passed pending, e].Sublist log ∧ e.pending? = some pending

/-- What the shutdown has to find for this. -/
def NothingToWaitFor : Prop :=
  ∀ r dest passed pending, .taken r dest passed pending ∈ log → dest.state = .writable →
    (dest.closeQueuedOrInFlight = false → pending = []) ∧ (dest.closeQueuedOrInFlight = true → passed = 0)

lemma writableAndNotClosing_iff {dest : WritableDest E} : writableAndNotClosing dest = true ↔
    dest.state = .writable ∧ dest.closeQueuedOrInFlight = true := by
  simp [writableAndNotClosing]

/-- The test for whether to wait is the wrong way round: a shutdown waits for the writes only if the
destination is closing.  It is right exactly if there is nothing to wait for. -/
theorem waits_iff {destClosed : E} {s : Piping C E} (h : Piping.Reached destClosed s) :
    WaitsForWrites s.log ∧ ProceedsAtOnce s.log ↔ NothingToWaitFor s.log := by
  obtain ⟨hinv, hanswered⟩ := PipeInv.of_reached h
  constructor
  · rintro ⟨hwaits, hproceeds⟩ r dest passed pending hmem hwritable
    obtain ⟨htest, hpassed, hwait⟩ | ⟨htest, -, e, hsub, hpending⟩ := hanswered.taken r dest passed pending hmem
    · have hclosing := (writableAndNotClosing_iff.mp htest).2
      exact absurd hwait (hproceeds r dest passed pending hmem (.inr hclosing)).1
    · refine ⟨fun hclosing => eq_nil_iff_forall_not_mem.mpr fun w hw => ?_, fun hclosing => ?_⟩
      · have hlt := hinv.pendingBefore r dest passed pending hmem w hw
        have hpair := pairwise_pair.mp (hwaits.sublist hsub)
        exact hpair r dest passed pending rfl hwritable hclosing (Nat.zero_lt_of_lt hlt) _ hpending w hlt hw
      · by_contra hne
        exact htest ⟨writableAndNotClosing_iff.mpr ⟨hwritable, hclosing⟩, Nat.pos_of_ne_zero hne⟩
  · intro hnothing
    refine ⟨?_, fun r dest passed pending hmem hcase => ?_⟩
    · refine hinv.pendingAfter.imp_of_mem fun hmem _ hafter => ?_
      rintro r dest passed pending rfl hwritable hclosing - p hp w hlt hw
      have hin := hafter r dest passed pending rfl p hp w hw hlt
      rw [(hnothing r dest passed pending hmem hwritable).1 hclosing] at hin
      cases hin
    · obtain ⟨htest, hpassed, -⟩ | ⟨-, hwaits, he⟩ := hanswered.taken r dest passed pending hmem
      · obtain ⟨hwritable, hclosing⟩ := writableAndNotClosing_iff.mp htest
        have hzero := (hnothing r dest passed pending hmem hwritable).2 hclosing
        omega
      · exact ⟨hwaits, he⟩

section Run

theorem waits_iff_pipeRun : ∃ s, pipeRun = some s ∧
    (WaitsForWrites s.log ∧ ProceedsAtOnce s.log ↔ NothingToWaitFor s.log) := by
  obtain ⟨s, hs, -⟩ := map_eq_some_iff.mp log_pipeRun
  exact ⟨s, hs, waits_iff (reached_of_pipeRun hs)⟩

/-- The writer is closed while the write is pending. -/
theorem not_waitsForWrites_pipeRun :
    ¬∀ s : Piping ℕ ℕ, Piping.Reached 1 s → WaitsForWrites s.log ∧ ProceedsAtOnce s.log := by
  intro hall
  obtain ⟨s, hs, hlog⟩ := map_eq_some_iff.mp log_pipeRun
  obtain ⟨hwaits, -⟩ := hall s (reached_of_pipeRun hs)
  rw [hlog] at hwaits
  have hpair := pairwise_pair.mp (hwaits.sublist
    (sublist_append_right [_, _, _, _] [_, _]))
  exact hpair _ _ _ _ rfl rfl rfl Nat.one_pos _ rfl 0 Nat.one_pos (mem_singleton_self 0)

end Run

end SpiderMonkey
