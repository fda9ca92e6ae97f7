import SpiderMonkey.Builtin.ModuleRecord

/-!
# The search of linking and evaluation

What `innerModule` does, for both of its phases.  The statuses and the stack are a state of Tarjan's
search (`abs`), in which a visit that returns is a `Visit` and one that throws is an `Abort`.  Beside it
goes what is run for the modules: once for each that is visited, and for what a module depends on
through modules of other components before it is run for the module (`Effect.order`).

A module that could not be put on the stack is lost: it is busy and not on the stack (`Thrown`).
-/

namespace SpiderMonkey

open Relation Tarjan List Function

variable {M ε : Type}

namespace ModuleGraph

/-- A module that another one requests. -/
def Requires (g : ModuleGraph M) (m m' : M) : Prop :=
  ∃ r ∈ g.requestedModules m, g.HostResolveImportedModule m r = m'

abbrev Reaches (g : ModuleGraph M) (m m' : M) : Prop := ReflTransGen g.Requires m m'

/-- A module depends on another one through a request that leaves its component. -/
def DependsOn (g : ModuleGraph M) (m d : M) : Prop :=
  ∃ m', g.Requires m m' ∧ ¬g.Reaches m' m ∧ g.Reaches m' d

end ModuleGraph

/-- What the search relies on of its phase.  A module that is refused throws an error that its own
slots determine. -/
structure Phase.Lawful (phase : Phase M ε) (refusal : ModuleStatus → Option ε → ε → Prop) : Prop where
  visited_pending : phase.visited phase.pending = false
  visited_busy : phase.visited phase.busy = true
  visited_complete : phase.visited phase.complete = true
  pending_lt_busy : phase.pending.toNat < phase.busy.toNat
  busy_lt_complete : phase.busy.toNat < phase.complete.toNat
  minimum_le : phase.minimumStatus.toNat ≤ phase.pending.toNat
  passed_of_visited : ∀ st, phase.visited st = true → phase.passed st = true
  busy_ne_error : phase.busy ≠ .evaluatedError
  complete_ne_error : phase.complete ≠ .evaluatedError
  refuse : ∀ (m : M) (s : ModuleState M ε), phase.visited (s.status m) = false →
    s.status m ≠ phase.pending → phase.minimumStatus.toNat ≤ (s.status m).toNat →
    (s.status m = .evaluatedError → (s.evaluationError m).isSome = true) →
    ∃ e, phase.refuse m s = some (.error e, s) ∧ refusal (s.status m) (s.evaluationError m) e

namespace Phase.Lawful

variable {phase : Phase M ε} {refusal : ModuleStatus → Option ε → ε → Prop}

lemma pending_ne_busy (h : phase.Lawful refusal) : phase.pending ≠ phase.busy :=
  fun heq => absurd h.pending_lt_busy (heq ▸ lt_irrefl _)

lemma busy_ne_complete (h : phase.Lawful refusal) : phase.busy ≠ phase.complete :=
  fun heq => absurd h.busy_lt_complete (heq ▸ lt_irrefl _)

end Phase.Lawful

namespace ModuleState

/-- The state of the search. -/
def abs (phase : Phase M ε) (s : ModuleState M ε) : Tarjan.State M :=
  ⟨s.stack, {m | phase.visited (s.status m) = true ∧ s.status m ≠ phase.busy}⟩

/-- The modules that are not to be visited again. -/
def visited (phase : Phase M ε) (s : ModuleState M ε) : Set M := {m | phase.visited (s.status m) = true}

def index (s : ModuleState M ε) (m : M) : ℕ := (s.dfsIndex m).getD 0

end ModuleState

/-- Nothing has been run twice, or for a pending module. -/
structure Traced (phase : Phase M ε) (s : ModuleState M ε) : Prop where
  attempts_nodup : s.attempts.Nodup
  ran_nodup : s.ran.Nodup
  ran_subset : s.ran ⊆ s.attempts
  not_pending : ∀ m ∈ s.attempts, s.status m ≠ phase.pending

structure SearchInv (g : ModuleGraph M) (phase : Phase M ε) (s : ModuleState M ε) (next : ℕ) : Prop where
  busy_iff : ∀ m, s.status m = phase.busy ↔ m ∈ s.stack
  valid : Valid g.Requires s.index (s.abs phase)
  slots : ∀ m ∈ s.visited phase, (s.dfsIndex m).isSome = true ∧ (s.dfsAncestorIndex m).isSome = true
  index_lt : ∀ m ∈ s.stack, s.index m < next
  ancestor : ∀ m ∈ s.stack, ∀ a, s.dfsAncestorIndex m = some a →
    a ≤ s.index m ∧ ∃ y ∈ s.stack, s.index y = a ∧ g.Reaches m y
  minimum : ∀ m, phase.minimumStatus.toNat ≤ (s.status m).toNat
  errors : ∀ m, s.status m = .evaluatedError → (s.evaluationError m).isSome = true
  traced : Traced phase s

/-- What a visit does beside the search: `new` are the modules for which something was run. -/
structure Effect (g : ModuleGraph M) (phase : Phase M ε) (throws : ModuleStep M → Option ε)
    (s s' : ModuleState M ε) (new : List M) (lost : Option M) : Prop where
  ran_eq : s'.ran = s.ran ++ new
  mem_new : ∀ m ∈ new, m ∈ s'.visited phase ∧ m ∉ s.visited phase
  attempts_prefix : s.attempts <+: s'.attempts
  mem_attempts : ∀ m ∈ s'.attempts, m ∈ s.attempts ∨ m ∈ s'.visited phase ∧ m ∉ s.visited phase
  /-- What a module depends on comes first. -/
  order : ∀ l₁ m l₂, new = l₁ ++ m :: l₂ → ∀ d, g.DependsOn m d → d ∈ l₁ ∨ d ∈ s.ran ∨ d ∈ (s.abs phase).done
  visited_subset : s.visited phase ⊆ s'.visited phase
  done_new : ∀ m ∈ (s'.abs phase).done, m ∉ (s.abs phase).done → m ∈ new ∧ s'.status m = phase.complete
  was_pending : ∀ m, m ∉ s.visited phase → m ∈ s'.visited phase → s.status m = phase.pending
  frame : ∀ m, m ∈ s.visited phase ∨ m ∉ s'.visited phase → s'.status m = s.status m ∧
    s'.dfsIndex m = s.dfsIndex m ∧ s'.dfsAncestorIndex m = s.dfsAncestorIndex m
  errors_eq : s'.evaluationError = s.evaluationError
  quiet : ∀ m ∈ s'.visited phase, m ∉ s.visited phase → lost ≠ some m → throws (.append m) = none

/-- The visit of `v` returns, and leaves `v` in a complete component or on the stack. -/
structure Returned (g : ModuleGraph M) (phase : Phase M ε) (throws : ModuleStep M → Option ε)
    (v : M) (s s' : ModuleState M ε) (next' : ℕ) : Prop where
  inv : SearchInv g phase s' next'
  visit : (∃ low, Visit g.Requires v s.index (s.abs phase) s'.index (s'.abs phase) [] low) ∨
    ∃ ext low, Visit g.Requires v s.index (s.abs phase) s'.index (s'.abs phase) (v :: ext) low ∧
      s'.dfsAncestorIndex v = some low
  effect : ∃ new, Effect g phase throws s s' new none ∧ ∀ m ∈ s'.visited phase, m ∉ s.visited phase → m ∈ new

/-- Why the visit of `v` throws: a step throws, or a module is refused. -/
inductive Cause (g : ModuleGraph M) (phase : Phase M ε) (throws : ModuleStep M → Option ε)
    (refusal : ModuleStatus → Option ε → ε → Prop) (v : M) (s s' : ModuleState M ε) (e : ε) :
    Option M → Prop
  | call (c : Option (M × ℕ)) (h : throws (.call c) = some e) : Cause g phase throws refusal v s s' e none
  | resolve (m : M) (i : ℕ) (h : throws (.resolve m i) = some e) : Cause g phase throws refusal v s s' e none
  /-- The module that could not be put on the stack is lost. -/
  | append (m : M) (h : throws (.append m) = some e) (reach : g.Reaches v m) (hstack : m ∉ s'.stack) :
    Cause g phase throws refusal v s s' e (some m)
  | run (m : M) (h : throws (.run m) = some e) (reach : g.Reaches v m) (hattempt : m ∈ s'.attempts)
    (hnew : m ∉ s.attempts) (hran : m ∉ s'.ran) : Cause g phase throws refusal v s s' e none
  | refuse (m : M) (reach : g.Reaches v m) (hvisited : m ∉ s.visited phase)
    (hpending : s.status m ≠ phase.pending) (h : refusal (s.status m) (s.evaluationError m) e) :
    Cause g phase throws refusal v s s' e none

/-- The visit of `v` throws. -/
structure Thrown (g : ModuleGraph M) (phase : Phase M ε) (throws : ModuleStep M → Option ε)
    (refusal : ModuleStatus → Option ε → ε → Prop) (v : M) (s s' : ModuleState M ε) (e : ε)
    (lost : Option M) : Prop where
  abort : ∃ ext busy, Abort g.Requires v busy s.index (s.abs phase) s'.index (s'.abs phase) ext ∧ ∀ m ∈ busy, m ∉ s'.ran
  effect : ∃ new, Effect g phase throws s s' new lost
  traced : Traced phase s'
  busy_iff : ∀ m, s'.status m = phase.busy ↔ m ∈ s'.stack ∨ lost = some m
  slots : ∀ m ∈ s'.visited phase, (s'.dfsIndex m).isSome = true ∧ (s'.dfsAncestorIndex m).isSome = true
  bottom : s'.stack = s.stack ∨ v ∈ s'.stack
  lost_idle : ∀ m, lost = some m → m ∉ s'.attempts
  cause : Cause g phase throws refusal v s s' e lost
  /-- Before something is run for a module, everything that it leads to is visited. -/
  attempted : v ∈ s'.attempts → v ∉ s.attempts → Explores g.Requires {v} (s.visited phase) (s'.visited phase)

section Basics

variable {g : ModuleGraph M} {phase : Phase M ε} {throws : ModuleStep M → Option ε}
  {refusal : ModuleStatus → Option ε → ε → Prop} {s s₁ s₂ : ModuleState M ε} {next : ℕ}
  {lost : Option M} {new new₂ : List M} {m v : M}

lemma SearchInv.visited_eq (h : SearchInv g phase s next) (hp : phase.Lawful refusal) :
    (s.abs phase).visited = s.visited phase := by
  ext m
  by_cases hb : s.status m = phase.busy
  · exact iff_of_true (.inl ((h.busy_iff m).mp hb)) (by
      show phase.visited (s.status m) = true
      rw [hb]
      exact hp.visited_busy)
  · exact ⟨fun hm => (hm.resolve_left fun hm => hb ((h.busy_iff m).mpr hm)).1, fun hm => .inr ⟨hm, hb⟩⟩

namespace Effect

lemma refl (s : ModuleState M ε) : Effect g phase throws s s [] none where
  ran_eq := (append_nil _).symm
  mem_new := fun m hm => absurd hm not_mem_nil
  attempts_prefix := prefix_rfl
  mem_attempts := fun m hm => .inl hm
  order := fun l₁ m l₂ h => by cases l₁ <;> cases h
  visited_subset := subset_rfl
  done_new := fun m hm hn => absurd hm hn
  was_pending := fun m hn hm => absurd hm hn
  frame := fun m _ => ⟨rfl, rfl, rfl⟩
  errors_eq := rfl
  quiet := fun m hm hn => absurd hm hn

lemma trans (h : Effect g phase throws s s₁ new none) (h₂ : Effect g phase throws s₁ s₂ new₂ lost) :
    Effect g phase throws s s₂ (new ++ new₂) lost where
  ran_eq := by simp [h₂.ran_eq, h.ran_eq]
  mem_new := by
    intro m hm
    obtain hm | hm := mem_append.mp hm
    · exact ⟨h₂.visited_subset (h.mem_new m hm).1, (h.mem_new m hm).2⟩
    · exact ⟨(h₂.mem_new m hm).1, fun hs => (h₂.mem_new m hm).2 (h.visited_subset hs)⟩
  attempts_prefix := h.attempts_prefix.trans h₂.attempts_prefix
  mem_attempts := by
    intro m hm
    obtain hm | ⟨hm, hn⟩ := h₂.mem_attempts m hm
    · exact (h.mem_attempts m hm).imp_right fun hm => ⟨h₂.visited_subset hm.1, hm.2⟩
    · exact .inr ⟨hm, fun hs => hn (h.visited_subset hs)⟩
  order := by
    intro l₁ m l₂ heq d hd
    obtain ⟨l, rfl, hl⟩ | ⟨l, hnew, hl⟩ := append_eq_append_iff.mp heq
    · -- The module is run in the second visit.
      obtain hd | hd | hd := h₂.order l m l₂ hl d hd
      · exact .inl (mem_append_right _ hd)
      · rw [h.ran_eq, mem_append] at hd
        exact hd.elim (fun hd => .inr (.inl hd)) fun hd => .inl (mem_append_left _ hd)
      · by_cases hs : d ∈ (s.abs phase).done
        · exact .inr (.inr hs)
        · exact .inl (mem_append_left _ (h.done_new d hd hs).1)
    · cases l with
      | nil =>
        rw [append_nil] at hnew
        subst hnew
        obtain hd | hd | hd := h₂.order [] m l₂ hl.symm d hd
        · cases hd
        · rw [h.ran_eq, mem_append] at hd
          exact hd.elim (fun hd => .inr (.inl hd)) .inl
        · by_cases hs : d ∈ (s.abs phase).done
          · exact .inr (.inr hs)
          · exact .inl (h.done_new d hd hs).1
      | cons x l =>
        cases hl
        exact h.order l₁ m l hnew d hd
  visited_subset := h.visited_subset.trans h₂.visited_subset
  done_new := by
    intro m hm hn
    by_cases hm₁ : m ∈ (s₁.abs phase).done
    · obtain ⟨hnew, hst⟩ := h.done_new m hm₁ hn
      exact ⟨mem_append_left _ hnew, (h₂.frame m (.inl hm₁.1)).1.trans hst⟩
    · obtain ⟨hnew, hst⟩ := h₂.done_new m hm hm₁
      exact ⟨mem_append_right _ hnew, hst⟩
  was_pending := by
    intro m hn hm
    by_cases hm₁ : m ∈ s₁.visited phase
    · exact h.was_pending m hn hm₁
    · exact (h.frame m (.inr hm₁)).1.symm.trans (h₂.was_pending m hm₁ hm)
  frame := by
    intro m hm
    have hm₁ : m ∈ s.visited phase ∨ m ∉ s₁.visited phase := hm.imp_right fun hm hm₁ => hm (h₂.visited_subset hm₁)
    have hm₂ : m ∈ s₁.visited phase ∨ m ∉ s₂.visited phase := hm.imp_left fun hm => h.visited_subset hm
    obtain ⟨hst, hidx, hanc⟩ := h.frame m hm₁
    obtain ⟨hst₂, hidx₂, hanc₂⟩ := h₂.frame m hm₂
    exact ⟨hst₂.trans hst, hidx₂.trans hidx, hanc₂.trans hanc⟩
  errors_eq := h₂.errors_eq.trans h.errors_eq
  quiet := by
    intro m hm hn hlost
    by_cases hm₁ : m ∈ s₁.visited phase
    · exact h.quiet m hm₁ hn nofun
    · exact h₂.quiet m hm hm₁ hlost

end Effect

lemma Effect.of_stack {l : List M} (h : Effect g phase throws s s₁ new lost) :
    Effect g phase throws s { s₁ with stack := l } new lost :=
  { h with }

lemma Phase.Lawful.notMem_visited (hp : phase.Lawful refusal) (hv : s.status v = phase.pending) :
    v ∉ s.visited phase := by
  intro h
  have hvisited : phase.visited (s.status v) = true := h
  rw [hv, hp.visited_pending] at hvisited
  exact Bool.false_ne_true hvisited

end Basics

/-! ## The visit of one module -/

section Visiting

variable [DecidableEq M]

namespace ModuleState

open Function

/-- The module is busy and has the next number. -/
def enter (phase : Phase M ε) (v : M) (next : ℕ) (s : ModuleState M ε) : ModuleState M ε :=
  { s with
    status := update s.status v phase.busy
    dfsIndex := update s.dfsIndex v (some next)
    dfsAncestorIndex := update s.dfsAncestorIndex v (some next) }

def push (v : M) (s : ModuleState M ε) : ModuleState M ε := { s with stack := s.stack ++ [v] }

/-- The ancestor index of `v` after the visit of `w`. -/
def lowered (phase : Phase M ε) (v w : M) (s : ModuleState M ε) : ModuleState M ε :=
  if s.status w = phase.busy then
    { s with
      dfsAncestorIndex := update s.dfsAncestorIndex v
        (minIndex (s.dfsAncestorIndex v) (s.dfsAncestorIndex w)) }
  else s

def attempt (v : M) (s : ModuleState M ε) : ModuleState M ε :=
  { s with attempts := s.attempts ++ [v] }

def succeed (v : M) (s : ModuleState M ε) : ModuleState M ε := { s with ran := s.ran ++ [v] }

def popped (phase : Phase M ε) (base group : List M) (s : ModuleState M ε) : ModuleState M ε :=
  { s with
    stack := base
    status := fun m => if m ∈ group then phase.complete else s.status m }

variable {phase : Phase M ε} {refusal : ModuleStatus → Option ε → ε → Prop} {s : ModuleState M ε}
  {v m : M} {next : ℕ}

lemma visited_enter (hp : phase.Lawful refusal) (next : ℕ) :
    (s.enter phase v next).visited phase = insert v (s.visited phase) := by
  ext m
  show phase.visited (update s.status v phase.busy m) = true ↔ _
  by_cases hm : m = v
  · rw [hm, update_self]
    exact iff_of_true hp.visited_busy (.inl rfl)
  · rw [update_of_ne hm]
    exact ⟨.inr, fun h => h.resolve_left hm⟩

lemma abs_enter (hp : phase.Lawful refusal) (hv : s.status v = phase.pending) :
    (s.enter phase v next).abs phase = s.abs phase := by
  refine congrArg (Tarjan.State.mk s.stack) (Set.ext fun m => ?_)
  show phase.visited (update s.status v phase.busy m) = true ∧
    update s.status v phase.busy m ≠ phase.busy ↔ _
  by_cases hm : m = v
  · rw [hm, update_self]
    refine iff_of_false (fun h => h.2 rfl) fun h => ?_
    have hvisited := h.1
    rw [hv, hp.visited_pending] at hvisited
    exact Bool.false_ne_true hvisited
  · rw [update_of_ne hm]
    exact Iff.rfl

omit [DecidableEq M] in
lemma abs_push : (s.push v).abs phase = (s.abs phase).push v := rfl

lemma index_enter_self (phase : Phase M ε) (next : ℕ) : (s.enter phase v next).index v = next := by
  show (update s.dfsIndex v (some next) v).getD 0 = next
  simp

lemma index_enter_of_ne (phase : Phase M ε) (next : ℕ) (hm : m ≠ v) : (s.enter phase v next).index m = s.index m :=
  congrArg (Option.getD · 0) (update_of_ne hm _ _)

end ModuleState

/-- The visit of `v` from `s` to `t`, of whose requests those to `W` have been followed. -/
structure Scanning (g : ModuleGraph M) (phase : Phase M ε) (throws : ModuleStep M → Option ε) (v : M)
    (W : Set M) (s t : ModuleState M ε) (next : ℕ) : Prop where
  inv : SearchInv g phase t next
  scan : ∃ ext low, Scan g.Requires v W s.index (s.abs phase) t.index (t.abs phase) ext low ∧
    t.dfsAncestorIndex v = some low
  effect : ∃ new, Effect g phase throws s t new none ∧ ∀ m ∈ t.visited phase, m ∉ insert v (s.visited phase) → m ∈ new
  idle : v ∉ t.attempts

/-- The visit of `v` after something has been run for it. -/
structure Executed (g : ModuleGraph M) (phase : Phase M ε) (throws : ModuleStep M → Option ε) (v : M)
    (s t : ModuleState M ε) (next : ℕ) : Prop where
  inv : SearchInv g phase t next
  scan : ∃ ext low, Scan g.Requires v {w | g.Requires v w} s.index (s.abs phase) t.index
    (t.abs phase) ext low ∧ t.dfsAncestorIndex v = some low
  effect : ∃ new, Effect g phase throws s t new none ∧ ∀ m ∈ t.visited phase, m ∉ s.visited phase → m ∈ new

variable {g : ModuleGraph M} {phase : Phase M ε} {throws : ModuleStep M → Option ε}
  {refusal : ModuleStatus → Option ε → ε → Prop} {s t t' : ModuleState M ε} {next next' : ℕ}
  {lost : Option M} {new : List M} {m v w : M} {W : Set M} {e : ε}

lemma Effect.enter (hp : phase.Lawful refusal) (hv : s.status v = phase.pending)
    (hlost : lost = some v ∨ throws (.append v) = none) :
    Effect g phase throws s (s.enter phase v next) [] lost where
  ran_eq := (append_nil _).symm
  mem_new := fun m hm => absurd hm not_mem_nil
  attempts_prefix := prefix_rfl
  mem_attempts := fun m hm => .inl hm
  order := fun l₁ m l₂ h => by cases l₁ <;> cases h
  visited_subset := by
    simp [ModuleState.visited_enter hp]
  done_new := by
    intro m hm hn
    rw [ModuleState.abs_enter hp hv] at hm
    exact absurd hm hn
  was_pending := by
    intro m hn hm
    rw [ModuleState.visited_enter hp] at hm
    rw [hm.resolve_right hn]
    exact hv
  frame := by
    intro m hm
    have hne : m ≠ v := by
      rintro rfl
      obtain hm | hm := hm
      · have hvisited : phase.visited (s.status m) = true := hm
        rw [hv, hp.visited_pending] at hvisited
        exact Bool.false_ne_true hvisited
      · rw [ModuleState.visited_enter hp] at hm
        exact hm (.inl rfl)
    exact ⟨update_of_ne hne _ _, update_of_ne hne _ _, update_of_ne hne _ _⟩
  errors_eq := rfl
  quiet := by
    intro m hm hn hl
    rw [ModuleState.visited_enter hp] at hm
    rw [hm.resolve_right hn] at hl ⊢
    exact hlost.resolve_left hl

lemma Effect.of_ancestor {c : Option ℕ} (h : Effect g phase throws s t new lost)
    (hv : v ∈ t.visited phase) (hvs : v ∉ s.visited phase) :
    Effect g phase throws s
      { t with dfsAncestorIndex := update t.dfsAncestorIndex v c } new lost :=
  { h with
    frame := by
      intro m hm
      have hne : m ≠ v := by
        rintro rfl
        exact hm.elim hvs fun hm => hm hv
      obtain ⟨hst, hidx, hanc⟩ := h.frame m hm
      exact ⟨hst, hidx, (update_of_ne hne _ _).trans hanc⟩ }

namespace Scanning

lemma start (hp : phase.Lawful refusal) (h : SearchInv g phase s next)
    (hv : s.status v = phase.pending) (happend : throws (.append v) = none) :
    Scanning g phase throws v ∅ s ((s.enter phase v next).push v) (next + 1) := by
  have hvs := hp.notMem_visited hv
  have hvstack : v ∉ s.stack := by
    intro hm
    exact hp.pending_ne_busy (hv.symm.trans ((h.busy_iff v).mpr hm))
  have hne : ∀ x ∈ s.stack, x ≠ v := fun x hx => ne_of_mem_of_not_mem hx hvstack
  have hidx : ∀ x ∈ s.stack, ((s.enter phase v next).push v).index x = s.index x :=
    fun x hx => ModuleState.index_enter_of_ne phase next (hne x hx)
  have hself : ((s.enter phase v next).push v).index v = next := ModuleState.index_enter_self phase next
  have habs : ((s.enter phase v next).push v).abs phase = (s.abs phase).push v := by
    rw [ModuleState.abs_push, ModuleState.abs_enter hp hv]
  have hlt : ∀ x ∈ s.stack, ((s.enter phase v next).push v).index x < ((s.enter phase v next).push v).index v := by
    intro x hx
    rw [hidx x hx, hself]
    exact h.index_lt x hx
  have hvabs : v ∉ (s.abs phase).visited := by
    rw [h.visited_eq hp]
    exact hvs
  have hscan := Scan.start h.valid hvabs hidx hlt
  rw [← habs, hself] at hscan
  have hvisited : ((s.enter phase v next).push v).visited phase = insert v (s.visited phase) :=
    ModuleState.visited_enter hp next
  have hanc_self : ((s.enter phase v next).push v).dfsAncestorIndex v = some next := update_self _ _ _
  have hstatus : ∀ x, x ≠ v → ((s.enter phase v next).push v).status x = s.status x := fun x hx => update_of_ne hx _ _
  have hstatus_self : ((s.enter phase v next).push v).status v = phase.busy := update_self _ _ _
  refine ⟨⟨fun x => ?_, hscan.valid, fun x hx => ?_, fun x hx => ?_, fun x hx a ha => ?_, fun x => ?_,
    fun x hx => ?_, ⟨h.traced.attempts_nodup, h.traced.ran_nodup, h.traced.ran_subset,
      fun x hx => ?_⟩⟩, ⟨[], next, hscan, update_self _ _ _⟩,
    ⟨[], (Effect.enter hp hv (.inr happend)).of_stack, fun x hx hn => ?_⟩, fun hm => ?_⟩
  · show _ ↔ x ∈ s.stack ++ [v]
    rw [mem_append, mem_singleton]
    by_cases hx : x = v
    · rw [hx]
      exact iff_of_true hstatus_self (.inr rfl)
    · rw [hstatus x hx, h.busy_iff, or_iff_left hx]
  · rw [hvisited] at hx
    by_cases hxv : x = v
    · subst hxv
      show (Function.update s.dfsIndex x (some next) x).isSome = true ∧
        (Function.update s.dfsAncestorIndex x (some next) x).isSome = true
      simp
    · show (Function.update s.dfsIndex v (some next) x).isSome = true ∧
        (Function.update s.dfsAncestorIndex v (some next) x).isSome = true
      rw [update_of_ne hxv, update_of_ne hxv]
      exact h.slots x (hx.resolve_left hxv)
  · obtain hx | hx := mem_append.mp hx
    · rw [hidx x hx]
      exact (h.index_lt x hx).trans (Nat.lt_succ_self next)
    · simp [mem_singleton.mp hx, hself]
  · obtain hx | hx := mem_append.mp hx
    · have ha' : s.dfsAncestorIndex x = some a := (update_of_ne (hne x hx) _ _).symm.trans ha
      obtain ⟨hle, y, hy, hya, hr⟩ := h.ancestor x hx a ha'
      rw [hidx x hx]
      exact ⟨hle, y, mem_append_left _ hy, (hidx y hy).trans hya, hr⟩
    · rw [mem_singleton.mp hx] at ha ⊢
      cases hanc_self.symm.trans ha
      exact ⟨hself.ge, v, mem_append_right _ mem_cons_self, hself, .refl⟩
  · by_cases hx : x = v
    · rw [hx, hstatus_self]
      exact hp.minimum_le.trans hp.pending_lt_busy.le
    · rw [hstatus x hx]
      exact h.minimum x
  · have hxv : x ≠ v := by
      rintro rfl
      exact hp.busy_ne_error (hstatus_self.symm.trans hx)
    exact h.errors x ((hstatus x hxv).symm.trans hx)
  · by_cases hxv : x = v
    · rw [hxv, hstatus_self]
      exact hp.pending_ne_busy.symm
    · rw [hstatus x hxv]
      exact h.traced.not_pending x hx
  · rw [hvisited] at hx
    exact absurd hx hn
  · exact h.traced.not_pending v hm hv

end Scanning

end Visiting

end SpiderMonkey
