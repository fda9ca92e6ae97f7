import SpiderMonkey.Builtin.ModuleVisit

/-!
# Evaluation

`ModuleEvaluate` executes the modules that a root leads to.  When a body throws, the modules that are on
the stack are in error from then on, also those of the component that have been executed before, and
keep the error that was thrown.

A module that leads to one in error is never executed itself, but what its evaluation throws need not be
the recorded error: the body of another module may throw before.
-/

namespace SpiderMonkey

open Relation Tarjan Script List Option

variable {M ε : Type}

def GetModuleEvaluationError (module : M) : Script (ModuleState M ε) ε ε := do
  let s ← get
  assert (s.status module = .evaluatedError)
  match s.evaluationError module with
  | some error => return error
  | none => stuck

/-- The phase of `InnerModuleEvaluation`. -/
def evaluationPhase (M : Type) (badModuleStatus : ε) : Phase M ε where
  pending := .linked
  busy := .evaluating
  complete := .evaluated
  minimumStatus := .linked
  visited st := decide (st = .evaluating ∨ st = .evaluated)
  passed st := decide (st = .evaluating ∨ st = .evaluated)
  refuse module := do
    let s ← get
    if s.status module = .evaluatedError then do
      let error ← GetModuleEvaluationError module
      throw error
    else stuck
  badModuleStatus := badModuleStatus

section Code

variable [DecidableEq M]

/-- The bodies are all that may throw. -/
def executes (body : M → Option ε) : ModuleStep M → Option ε
  | .run module => body module
  | _ => none

/-- What is run for a module is `ExecuteModule`. -/
def InnerModuleEvaluation (badModuleStatus : ε) (g : ModuleGraph M) (body : M → Option ε) (fuel : ℕ)
    (module : M) (index : ℕ) : Script (ModuleState M ε) ε ℕ :=
  innerModule g (executes body) (evaluationPhase M badModuleStatus) fuel module index

def RecordModuleEvaluationError (module : M) (error : ε) : Script (ModuleState M ε) ε Unit := do
  let s ← get
  if s.status module = .evaluatedError then return ()
  else do
    ModuleSetStatus module .evaluatedError
    modify fun s => { s with evaluationError := Function.update s.evaluationError module (some error) }

def recordErrors (error : ε) : List M → Script (ModuleState M ε) ε Unit
  | [] => return ()
  | m :: stack => do
    let s ← get
    assert (s.status m = .evaluating)
    RecordModuleEvaluationError m error
    recordErrors error stack

/-- The root that did not get onto the stack. -/
def recordRoot (module : M) (error : ε) : Script (ModuleState M ε) ε Unit := do
  let s ← get
  if s.stack.length = 0 then RecordModuleEvaluationError module error else return ()

def handleEvaluationError (module : M) (error : ε) : Script (ModuleState M ε) ε Unit := do
  let s ← get
  recordErrors error s.stack
  recordRoot module error
  let s ← get
  assert (s.status module = .evaluatedError)
  throw error

def ModuleEvaluate (badModuleStatus : ε) (g : ModuleGraph M) (body : M → Option ε) (fuel : ℕ)
    (module : M) : Script (ModuleState M ε) ε Unit := do
  let s ← get
  if s.status module ≠ .linked ∧ s.status module ≠ .evaluated ∧ s.status module ≠ .evaluatedError then
    throw badModuleStatus
  else do
    modify fun s => { s with stack := [] }
    tryCatch (do let _ ← InnerModuleEvaluation badModuleStatus g body fuel module 0)
      (handleEvaluationError module)
    let s ← get
    assert (s.status module = .evaluated)
    assert (s.stack.length = 0)

/-- Calls one after another, whether they throw or not. -/
def evaluateAll (badModuleStatus : ε) (g : ModuleGraph M) (body : M → Option ε) (fuel : ℕ) :
    List M → ModuleState M ε → Option (List (Except ε Unit) × ModuleState M ε)
  | [], s => some ([], s)
  | root :: roots, s => do
    let (r, s) ← ModuleEvaluate badModuleStatus g body fuel root s
    let (rs, s) ← evaluateAll badModuleStatus g body fuel roots s
    return (r :: rs, s)

end Code

/-! ## The handler -/

lemma evaluationPhase_lawful (badModuleStatus : ε) : (evaluationPhase M badModuleStatus).Lawful
    fun st error e => st = .evaluatedError ∧ error = some e where
  visited_pending := rfl
  visited_busy := rfl
  visited_complete := rfl
  pending_lt_busy := Nat.lt_succ_self 2
  busy_lt_complete := Nat.lt_succ_self 3
  minimum_le := le_rfl
  passed_of_visited := fun _ h => h
  busy_ne_error := nofun
  complete_ne_error := nofun
  refuse := by
    intro m s hvisited hpending hminimum herror
    cases h : s.status m with
    | evaluatedError =>
      obtain ⟨e, he⟩ := isSome_iff_exists.mp (herror h)
      refine ⟨e, ?_, rfl, he⟩
      have hruns : Runs ((evaluationPhase M badModuleStatus).refuse m) s (fun _ _ => False)
          fun e' s' => e' = e ∧ s' = s := by
        refine .bind <| .get <| .ite (fun _ => .bind <| .bind <| .get <| .bind <| .assert h ?_)
          fun hn => absurd h hn
        rw [he]
        exact .pure <| .throw ⟨rfl, rfl⟩
      obtain ⟨r, s', heq, hr⟩ := hruns
      cases r with
      | ok a => exact hr.elim
      | error e' =>
        simp [hr, heq]
    | linked => exact absurd h hpending
    | evaluating | evaluated =>
      rw [h] at hvisited
      exact Bool.noConfusion hvisited
    | unlinked =>
      rw [h] at hminimum
      exact absurd hminimum (Nat.not_succ_le_zero 1)
    | linking =>
      rw [h] at hminimum
      exact absurd hminimum (Nat.not_succ_le_self 1)

section Handler

variable [DecidableEq M]

namespace ModuleState

def fail (l : List M) (e : ε) (s : ModuleState M ε) : ModuleState M ε :=
  { s with
    status := fun m => if m ∈ l then .evaluatedError else s.status m
    evaluationError := fun m => if m ∈ l then some e else s.evaluationError m }

end ModuleState

variable {s : ModuleState M ε} {m : M} {l : List M} {e : ε} {Q : Unit → ModuleState M ε → Prop}
  {R : ε → ModuleState M ε → Prop}

namespace ModuleState

lemma fail_nil (e : ε) (s : ModuleState M ε) : s.fail [] e = s := by
  simp [fail]

lemma fail_fail (m : M) (l : List M) (e : ε) (s : ModuleState M ε) : (s.fail [m] e).fail l e = s.fail (m :: l) e := by
  simp only [fail, ite_mem_cons]

end ModuleState

lemma RecordModuleEvaluationError_runs (hm : s.status m ≠ .evaluatedError) (h : Q () (s.fail [m] e)) :
    Runs (RecordModuleEvaluationError m e) s Q R := by
  refine .bind <| .get <| .ite (fun hn => absurd hn hm) fun _ => .bind <| ModuleSetStatus_runs ?_ <| .modify ?_
  · revert hm
    cases s.status m <;> decide
  · simp only [update_eq_ite]
    exact h

lemma recordErrors_runs (l : List M) : ∀ {s : ModuleState M ε}, l.Nodup →
    (∀ m ∈ l, s.status m = .evaluating) → Q () (s.fail l e) → Runs (recordErrors e l) s Q R := by
  induction l with
  | nil =>
    intro s _ _ h
    rw [ModuleState.fail_nil] at h
    exact .pure h
  | cons m l ih =>
    intro s hnodup hevaluating h
    obtain ⟨hm, hnodup⟩ := nodup_cons.mp hnodup
    have hst := hevaluating m mem_cons_self
    have hne : s.status m ≠ .evaluatedError := by
      rw [hst]
      exact nofun
    refine .bind <| .get <| .bind <| .assert hst <| .bind <| RecordModuleEvaluationError_runs hne ?_
    refine ih hnodup (fun x hx => ?_) (ModuleState.fail_fail m l e s ▸ h)
    have hxm : x ∉ [m] := fun hx' => ne_of_mem_of_not_mem hx hm (mem_singleton.mp hx')
    exact (if_neg hxm).trans (hevaluating x (mem_cons_of_mem m hx))

lemma handleEvaluationError_runs {root : M} (hnodup : s.stack.Nodup)
    (hbusy : ∀ m, s.status m = .evaluating ↔ m ∈ s.stack) (hroot : s.stack = [] ∨ root ∈ s.stack)
    (h : ∀ l, (∀ m, s.status m = .evaluating → m ∈ l) →
      (∀ m ∈ l, m ∈ s.stack ∨ m = root ∧ s.stack = [] ∧ s.status root ≠ .evaluatedError) →
      (s.fail l e).status root = .evaluatedError → R e (s.fail l e)) :
    Runs (handleEvaluationError root e) s Q R := by
  refine .bind <| .get <| .bind <|
    recordErrors_runs s.stack hnodup (fun m hm => (hbusy m).mpr hm) <| .bind <| .bind <| .get ?_
  obtain hnil | hroot := hroot
  · have hnone : ∀ m, s.status m ≠ .evaluating := by
      intro m hm
      have hmem := (hbusy m).mp hm
      rw [hnil] at hmem
      exact not_mem_nil hmem
    rw [hnil, ModuleState.fail_nil]
    refine .ite (fun _ => ?_) fun hn => absurd (congrArg List.length hnil) hn
    by_cases hst : s.status root = .evaluatedError
    · refine .bind <| .get <| .ite (fun _ => .pure <| .bind <| .get <| .bind <| .assert hst <| .throw ?_)
        fun hn => absurd hst hn
      have hl := h [] (fun m hm => absurd hm (hnone m)) (fun m hm => absurd hm not_mem_nil)
      rw [ModuleState.fail_nil] at hl
      exact hl hst
    · have hself : (s.fail [root] e).status root = .evaluatedError := if_pos mem_cons_self
      refine RecordModuleEvaluationError_runs hst <| .bind <| .get <| .bind <| .assert hself <| .throw ?_
      exact h [root] (fun m hm => absurd hm (hnone m))
        (fun m hm => .inr ⟨mem_singleton.mp hm, hnil, hst⟩) hself
  · have hself : (s.fail s.stack e).status root = .evaluatedError := if_pos hroot
    refine .ite (fun hl => ?_) fun _ => .pure <| .bind <| .get <| .bind <| .assert hself <| .throw ?_
    · cases eq_nil_of_length_eq_zero hl ▸ hroot
    · exact h s.stack (fun m hm => (hbusy m).mp hm) (fun m hm => .inl hm) hself

end Handler

/-! ## The states between calls -/

/-- Every module has been executed after what it depends on. -/
def RanInOrder (g : ModuleGraph M) (ran : List M) : Prop :=
  ∀ l₁ m l₂, ran = l₁ ++ m :: l₂ → ∀ d, g.DependsOn m d → d ∈ l₁

/-- The states in which modules are evaluated. -/
structure Evaluable (g : ModuleGraph M) (s : ModuleState M ε) : Prop where
  status : ∀ m, s.status m = .linked ∨ s.status m = .evaluated ∨ s.status m = .evaluatedError
  closed : ∀ m m', g.Requires m m' → s.status m = .evaluated → s.status m' = .evaluated
  slots : ∀ m, (s.dfsIndex m).isSome = true ∧ (s.dfsAncestorIndex m).isSome = true
  errors : ∀ m, s.status m = .evaluatedError → (s.evaluationError m).isSome = true
  attempts_nodup : s.attempts.Nodup
  ran_nodup : s.ran.Nodup
  ran_subset : s.ran ⊆ s.attempts
  not_linked : ∀ m ∈ s.attempts, s.status m ≠ .linked
  evaluated_ran : ∀ m, s.status m = .evaluated → m ∈ s.ran
  order : RanInOrder g s.ran

/-- All modules are linked, and none has been executed. -/
structure AllLinked (s : ModuleState M ε) : Prop where
  status : ∀ m, s.status m = .linked
  slots : ∀ m, (s.dfsIndex m).isSome = true ∧ (s.dfsAncestorIndex m).isSome = true
  attempts : s.attempts = []
  ran : s.ran = []

/-- The state in which the search starts. -/
def ModuleState.clearStack (s : ModuleState M ε) : ModuleState M ε := { s with stack := [] }

section Invariant

variable {g : ModuleGraph M} {s s' : ModuleState M ε} {badModuleStatus e : ε} {m root : M}
  {throws : ModuleStep M → Option ε} {new : List M} {lost : Option M}

lemma AllLinked.evaluable (h : AllLinked s) : Evaluable g s := by
  refine ⟨fun m => .inl (h.status m), fun m _ _ hm => ?_, h.slots, fun m hm => ?_, ?_, ?_, ?_,
    fun m hm => ?_, fun m hm => ?_, fun l₁ m l₂ heq => ?_⟩
  · cases (h.status m).symm.trans hm
  · cases (h.status m).symm.trans hm
  · rw [h.attempts]
    exact nodup_nil
  · rw [h.ran]
    exact nodup_nil
  · rw [h.ran]
    simp
  · rw [h.attempts] at hm
    cases hm
  · cases (h.status m).symm.trans hm
  · rw [h.ran] at heq
    cases l₁ <;> cases heq

lemma mem_visited_evaluation : m ∈ s.visited (evaluationPhase M badModuleStatus) ↔
    s.status m = .evaluating ∨ s.status m = .evaluated := decide_eq_true_iff

lemma mem_done_evaluation : m ∈ (s.abs (evaluationPhase M badModuleStatus)).done ↔ s.status m = .evaluated := by
  refine (and_congr_left fun _ => mem_visited_evaluation).trans ?_
  refine ⟨fun h => h.1.resolve_left h.2, fun h => ⟨.inr h, ?_⟩⟩
  rw [h]
  exact nofun

namespace Evaluable

lemma not_evaluating (h : Evaluable g s) (m : M) : s.status m ≠ .evaluating := by
  intro hm
  have hst := h.status m
  rw [hm] at hst
  exact absurd hst (by decide)

lemma mem_visited (h : Evaluable g s) :
    m ∈ s.clearStack.visited (evaluationPhase M badModuleStatus) ↔ s.status m = .evaluated :=
  mem_visited_evaluation.trans (or_iff_right (h.not_evaluating m))

lemma evaluated_of_reaches (h : Evaluable g s) (hm : s.status m = .evaluated) {d : M}
    (hr : g.Reaches m d) : s.status d = .evaluated := by
  induction hr with
  | refl => exact hm
  | tail _ hE ih => exact h.closed _ _ hE ih

lemma searchInv (h : Evaluable g s) (badModuleStatus : ε) :
    SearchInv g (evaluationPhase M badModuleStatus) s.clearStack 0 where
  busy_iff := fun m => iff_of_false (h.not_evaluating m) not_mem_nil
  valid := by
    refine ⟨List.Pairwise.nil, fun x hx => absurd hx not_mem_nil, fun x hx y hE => ?_⟩
    rw [mem_done_evaluation] at hx ⊢
    exact h.closed x y hE hx
  slots := fun m _ => h.slots m
  index_lt := fun m hm => absurd hm not_mem_nil
  ancestor := fun m hm => absurd hm not_mem_nil
  minimum := by
    intro m
    have hst := h.status m
    revert hst
    show _ → 2 ≤ (s.status m).toNat
    cases s.status m <;> decide
  errors := h.errors
  traced := ⟨h.attempts_nodup, h.ran_nodup, h.ran_subset, h.not_linked⟩

end Evaluable

lemma Effect.ranInOrder (h : Evaluable g s)
    (heffect : Effect g (evaluationPhase M badModuleStatus) throws s.clearStack s' new lost) :
    RanInOrder g s'.ran := by
  intro l₁ m l₂ heq d hd
  have hran : s'.ran = s.ran ++ new := heffect.ran_eq
  rw [hran] at heq
  have hnew : ∀ l, new = l ++ m :: l₂ → d ∈ l ∨ d ∈ s.ran := by
    intro l hl
    obtain hd | hd | hd := heffect.order l m l₂ hl d hd
    · exact .inl hd
    · exact .inr hd
    · exact .inr (h.evaluated_ran d (mem_done_evaluation.mp hd))
  obtain ⟨l, rfl, hl⟩ | ⟨l, hs, hl⟩ := append_eq_append_iff.mp heq
  · exact mem_append.mpr ((hnew l hl).symm)
  · cases l with
    | nil =>
      rw [append_nil] at hs
      exact hs ▸ (hnew [] hl.symm).resolve_left not_mem_nil
    | cons x l =>
      cases hl
      exact h.order l₁ m l hs d hd

/-- A module is as before, or it was linked and is being executed or is evaluated. -/
lemma Effect.evaluation_cases
    (heffect : Effect g (evaluationPhase M badModuleStatus) throws s.clearStack s' new lost) (m : M) :
    (s'.status m = s.status m ∧ s'.dfsIndex m = s.dfsIndex m ∧ s'.dfsAncestorIndex m = s.dfsAncestorIndex m) ∨
    s.status m = .linked ∧ (s'.status m = .evaluating ∨ m ∈ new ∧ s'.status m = .evaluated) := by
  by_cases hs : m ∈ s.clearStack.visited (evaluationPhase M badModuleStatus)
  · exact .inl (heffect.frame m (.inl hs))
  by_cases hs' : m ∈ s'.visited (evaluationPhase M badModuleStatus)
  · refine .inr ⟨heffect.was_pending m hs hs', ?_⟩
    by_cases hb : s'.status m = .evaluating
    · exact .inl hb
    · exact .inr (heffect.done_new m ⟨hs', hb⟩ fun hd => hs hd.1)
  · exact .inl (heffect.frame m (.inr hs'))

lemma Effect.mem_ran_of_evaluated (h : Evaluable g s)
    (heffect : Effect g (evaluationPhase M badModuleStatus) throws s.clearStack s' new lost)
    (hm : s'.status m = .evaluated) : m ∈ s'.ran := by
  have hran : s'.ran = s.ran ++ new := heffect.ran_eq
  rw [hran, mem_append]
  obtain ⟨hst, -⟩ | ⟨-, hst | ⟨hnew, -⟩⟩ := heffect.evaluation_cases m
  · exact .inl (h.evaluated_ran m (hst.symm.trans hm))
  · cases hm.symm.trans hst
  · exact .inr hnew

lemma Returned.evaluable {next : ℕ} (h : Evaluable g s)
    (hr : Returned g (evaluationPhase M badModuleStatus) throws root s.clearStack s' next) :
    s'.stack = [] ∧ s'.status root = .evaluated ∧ Evaluable g s' := by
  obtain ⟨new, heffect, -⟩ := hr.effect
  obtain ⟨hstack, hroot⟩ : s'.stack = [] ∧ root ∈ (s'.abs (evaluationPhase M badModuleStatus)).visited := by
    obtain ⟨low, hvisit⟩ | ⟨ext, low, hvisit, -⟩ := hr.visit
    · exact ⟨hvisit.stack_eq, hvisit.explores.roots_subset rfl⟩
    · obtain ⟨y, hy, -⟩ := hvisit.returns root mem_cons_self
      cases hy
  have hnot : ∀ m, s'.status m ≠ .evaluating := by
    intro m hm
    have hmem := (hr.inv.busy_iff m).mp hm
    rw [hstack] at hmem
    exact not_mem_nil hmem
  rw [hr.inv.visited_eq (evaluationPhase_lawful badModuleStatus), mem_visited_evaluation] at hroot
  refine ⟨hstack, hroot.resolve_left (hnot root), ⟨fun m => ?_, fun m m' hE hm => ?_, fun m => ?_,
    hr.inv.errors, hr.inv.traced.attempts_nodup, hr.inv.traced.ran_nodup, hr.inv.traced.ran_subset,
    hr.inv.traced.not_pending, fun m hm => heffect.mem_ran_of_evaluated h hm, heffect.ranInOrder h⟩⟩
  · obtain ⟨hst, -⟩ | ⟨-, hst | ⟨-, hst⟩⟩ := heffect.evaluation_cases m
    · rw [hst]
      exact h.status m
    · exact absurd hst (hnot m)
    · exact .inr (.inl hst)
  · have hdone := hr.inv.valid.closed m (mem_done_evaluation.mpr hm) m' hE
    exact mem_done_evaluation.mp hdone
  · obtain ⟨-, hidx, hanc⟩ | ⟨-, hst | ⟨-, hst⟩⟩ := heffect.evaluation_cases m
    · rw [hidx, hanc]
      exact h.slots m
    · exact absurd hst (hnot m)
    · exact hr.inv.slots m (mem_visited_evaluation.mpr (.inr hst))

section Thrown

variable [DecidableEq M] {body : M → Option ε}

omit [DecidableEq M] in
lemma Thrown.root_not_evaluated (h : Evaluable g s) (ht : Thrown g (evaluationPhase M badModuleStatus) (executes body)
      (fun st error e => st = .evaluatedError ∧ error = some e) root s.clearStack s' e lost) :
    s'.status root ≠ .evaluated := by
  obtain ⟨new, heffect⟩ := ht.effect
  obtain ⟨ext, busy, habort, -⟩ := ht.abort
  intro hroot
  have hall : ∀ m, g.Reaches root m → s'.status m = .evaluated := by
    intro m hm
    have hdone := habort.valid.done_of_reachable (mem_done_evaluation.mpr hroot) hm
    exact mem_done_evaluation.mp hdone
  cases ht.cause with
  | call _ he => exact absurd he nofun
  | resolve _ _ he => exact absurd he nofun
  | append _ he => exact absurd he nofun
  | run m he hr _ _ hran => exact hran (heffect.mem_ran_of_evaluated h (hall m hr))
  | refuse m hr hvisited hpending hrefuse =>
    obtain ⟨hst, -⟩ | ⟨hst, -⟩ := heffect.evaluation_cases m
    · exact hvisited (h.mem_visited.mpr (hst.symm.trans (hall m hr)))
    · exact hpending hst

lemma Thrown.evaluable (h : Evaluable g s) (ht : Thrown g (evaluationPhase M badModuleStatus) (executes body)
      (fun st error e => st = .evaluatedError ∧ error = some e) root s.clearStack s' e lost)
    {l : List M} (hin : ∀ m, s'.status m = .evaluating → m ∈ l)
    (hl : ∀ m ∈ l, s'.status m ≠ .evaluated) : Evaluable g (s'.fail l e) := by
  obtain ⟨new, heffect⟩ := ht.effect
  obtain ⟨ext, busy, habort, -⟩ := ht.abort
  have hfail : ∀ m ∈ l, (s'.fail l e).status m = .evaluatedError := fun m hm => if_pos hm
  have hkeep : ∀ m, m ∉ l → (s'.fail l e).status m = s'.status m := fun m hm => if_neg hm
  have hevaluated : ∀ m, (s'.fail l e).status m = .evaluated → s'.status m = .evaluated := by
    intro m hm
    by_cases hml : m ∈ l
    · cases hm.symm.trans (hfail m hml)
    · exact (hkeep m hml).symm.trans hm
  have hran : ∀ m, s'.status m = .evaluated → m ∈ s'.ran := fun m hm => heffect.mem_ran_of_evaluated h hm
  have horder : RanInOrder g s'.ran := heffect.ranInOrder h
  refine ⟨fun m => ?_, fun m m' hE hm => ?_, fun m => ?_, fun m hm => ?_, ht.traced.attempts_nodup,
    ht.traced.ran_nodup, ht.traced.ran_subset, fun m hm => ?_, fun m hm => hran m (hevaluated m hm),
    horder⟩
  · by_cases hml : m ∈ l
    · exact .inr (.inr (hfail m hml))
    · rw [hkeep m hml]
      obtain ⟨hst, -⟩ | ⟨-, hst | ⟨-, hst⟩⟩ := heffect.evaluation_cases m
      · rw [hst]
        exact h.status m
      · exact absurd (hin m hst) hml
      · exact .inr (.inl hst)
  · have hdone := habort.valid.closed m (mem_done_evaluation.mpr (hevaluated m hm)) m' hE
    have hst := mem_done_evaluation.mp hdone
    exact (hkeep m' fun hml => hl m' hml hst).trans hst
  · obtain ⟨-, hidx, hanc⟩ | ⟨-, hst⟩ := heffect.evaluation_cases m
    · show (s'.dfsIndex m).isSome = true ∧ (s'.dfsAncestorIndex m).isSome = true
      rw [hidx, hanc]
      exact h.slots m
    · exact ht.slots m (mem_visited_evaluation.mpr (hst.imp_right And.right))
  · by_cases hml : m ∈ l
    · exact congrArg isSome (if_pos hml)
    · rw [hkeep m hml] at hm
      refine (congrArg isSome (if_neg hml)).trans ?_
      rw [heffect.errors_eq]
      obtain ⟨hst, -⟩ | ⟨-, hst | ⟨-, hst⟩⟩ := heffect.evaluation_cases m
      · exact h.errors m (hst.symm.trans hm)
      · cases hm.symm.trans hst
      · cases hm.symm.trans hst
  · by_cases hml : m ∈ l
    · rw [hfail m hml]
      exact nofun
    · rw [hkeep m hml]
      exact ht.traced.not_pending m hm

end Thrown

end Invariant

/-! ## Correctness -/

/-- What a call of `ModuleEvaluate` promises, which takes `s` to `s'` with the result `r`. -/
structure Evaluates (badModuleStatus : ε) (g : ModuleGraph M) [DecidableEq M] (body : M → Option ε)
    (fuel : ℕ) (root : M) (s : ModuleState M ε) (r : Except ε Unit) (s' : ModuleState M ε) : Prop where
  attempts_prefix : s.attempts <+: s'.attempts
  /-- If it returns, everything is evaluated, and outside cycles after its dependencies. -/
  returned : r = .ok () → ∀ m, g.Reaches root m → s'.status m = .evaluated ∧
    (¬TransGen g.Requires m m → ∃ l₁ l₂, s'.ran = l₁ ++ m :: l₂ ∧ ∀ d, TransGen g.Requires m d → d ∈ l₁)
  /-- If it throws, what is on the stack gets the error that is thrown. -/
  recorded : ∀ e, r = .error e → ∃ t,
    InnerModuleEvaluation badModuleStatus g body fuel root 0 s.clearStack = some (.error e, t) ∧
    ∀ m ∈ t.stack, s'.status m = .evaluatedError ∧ s'.evaluationError m = some e
  kept : ∀ m, s.status m = .evaluatedError → s'.status m = .evaluatedError ∧ s'.evaluationError m = s.evaluationError m
  /-- A module in error throws its error again. -/
  rethrown : s.status root = .evaluatedError → ∃ e, s.evaluationError root = some e ∧
    r = .error e ∧ s'.attempts = s.attempts
  /-- So does one that leads to modules in error, unless another body throws before. -/
  reaches_error : ∀ d, g.Reaches root d → s.status d = .evaluatedError →
    ∃ e, r = .error e ∧ (root ∈ s'.attempts → root ∈ s.attempts) ∧
      ((∃ d', g.Reaches root d' ∧ s.status d' = .evaluatedError ∧ s.evaluationError d' = some e) ∨
        ∃ m, g.Reaches root m ∧ m ∈ s'.attempts ∧ m ∉ s.attempts ∧ body m = some e)

section Correctness

variable [DecidableEq M] {g : ModuleGraph M} {s s' : ModuleState M ε} {badModuleStatus e : ε}
  {m root : M} {body : M → Option ε} {fuel : ℕ}

omit [DecidableEq M] in
lemma dependsOn_of_transGen (hm : ¬TransGen g.Requires m m) {d : M} (hd : TransGen g.Requires m d) :
    g.DependsOn m d := by
  obtain ⟨m', hE, hr⟩ := TransGen.head'_iff.mp hd
  exact ⟨m', hE, fun hback => hm (.head' hE hback), hr⟩

omit [DecidableEq M] in
lemma Evaluable.executed (h : Evaluable g s) (hroot : s.status root = .evaluated)
    (hr : g.Reaches root m) : s.status m = .evaluated ∧ (¬TransGen g.Requires m m →
      ∃ l₁ l₂, s.ran = l₁ ++ m :: l₂ ∧ ∀ d, TransGen g.Requires m d → d ∈ l₁) := by
  have hm := h.evaluated_of_reaches hroot hr
  obtain ⟨l₁, l₂, hran⟩ := append_of_mem (h.evaluated_ran m hm)
  exact ⟨hm, fun hcycle => ⟨l₁, l₂, hran, fun d hd =>
    h.order l₁ m l₂ hran d (dependsOn_of_transGen hcycle hd)⟩⟩

lemma Evaluable.evaluates_evaluated (h : Evaluable g s) (hroot : s.status root = .evaluated) :
    Evaluates badModuleStatus g body fuel root s (.ok ()) s.clearStack := by
  refine ⟨prefix_rfl, fun _ m hr => h.executed hroot hr, fun e he => absurd he nofun,
    fun m hm => ⟨hm, rfl⟩, fun hn => ?_, fun d hd hst => ?_⟩
  · cases hroot.symm.trans hn
  · cases (h.evaluated_of_reaches hroot hd).symm.trans hst

lemma Returned.evaluates {next : ℕ} (h : Evaluable g s) (hst : s.status root = .linked)
    (hr : Returned g (evaluationPhase M badModuleStatus) (executes body) root s.clearStack s' next) :
    Evaluates badModuleStatus g body fuel root s (.ok ()) s' := by
  obtain ⟨new, heffect, -⟩ := hr.effect
  obtain ⟨-, hroot, h'⟩ := hr.evaluable h
  have hkept : ∀ m, s.status m = .evaluatedError → s'.status m = .evaluatedError := by
    intro m hm
    obtain ⟨hst, -⟩ | ⟨hst, -⟩ := heffect.evaluation_cases m
    · exact hst.trans hm
    · cases hm.symm.trans hst
  refine ⟨heffect.attempts_prefix, fun _ m hm => h'.executed hroot hm, fun e he => absurd he nofun,
    fun m hm => ⟨hkept m hm, congrFun heffect.errors_eq m⟩, fun hn => ?_, fun d hd hn => ?_⟩
  · cases hst.symm.trans hn
  · cases (h'.evaluated_of_reaches hroot hd).symm.trans (hkept d hn)

lemma Thrown.evaluates {lost : Option M} (h : Evaluable g s) (hst : s.status root = .linked)
    (ht : Thrown g (evaluationPhase M badModuleStatus) (executes body)
      (fun st error e => st = .evaluatedError ∧ error = some e) root s.clearStack s' e lost)
    (heq : InnerModuleEvaluation badModuleStatus g body fuel root 0 s.clearStack = some (.error e, s'))
    {l : List M} (hin : ∀ m, s'.status m = .evaluating → m ∈ l)
    (hl : ∀ m ∈ l, s'.status m ≠ .evaluatedError) :
    Evaluates badModuleStatus g body fuel root s (.error e) (s'.fail l e) := by
  obtain ⟨new, heffect⟩ := ht.effect
  have hkept : ∀ m, s.status m = .evaluatedError → s'.status m = .evaluatedError := by
    intro m hm
    obtain ⟨hst, -⟩ | ⟨hst, -⟩ := heffect.evaluation_cases m
    · exact hst.trans hm
    · cases hm.symm.trans hst
  refine ⟨heffect.attempts_prefix, fun hr => absurd hr nofun, fun e' he => ?_, fun m hm => ?_,
    fun hn => ?_, fun d hd hn => ⟨e, rfl, fun ha => ?_, ?_⟩⟩
  · cases he
    refine ⟨s', heq, fun m hm => ?_⟩
    have hml := hin m ((ht.busy_iff m).mpr (.inl hm))
    exact ⟨if_pos hml, if_pos hml⟩
  · have hml : m ∉ l := fun hml => hl m hml (hkept m hm)
    exact ⟨(if_neg hml).trans (hkept m hm), (if_neg hml).trans (congrFun heffect.errors_eq m)⟩
  · cases hst.symm.trans hn
  · -- Everything that the root leads to would have been visited.
    by_contra hs
    have hexplores := ht.attempted ha hs
    have hall : ∀ m, g.Reaches root m → m ∈ s'.visited (evaluationPhase M badModuleStatus) := by
      intro m hm
      induction hm with
      | refl => exact hexplores.roots_subset rfl
      | @tail x y _ hE ih =>
        by_cases hx : x ∈ s.clearStack.visited (evaluationPhase M badModuleStatus)
        · exact hexplores.subset (h.mem_visited.mpr (h.closed x y hE (h.mem_visited.mp hx)))
        · exact hexplores.closed x ih hx y hE
    have hd' := mem_visited_evaluation.mp (hall d hd)
    rw [hkept d hn] at hd'
    exact absurd hd' (by decide)
  · cases ht.cause with
    | call _ he => exact absurd he nofun
    | resolve _ _ he => exact absurd he nofun
    | append _ he => exact absurd he nofun
    | run m he hr hattempt hnew _ => exact .inr ⟨m, hr, hattempt, hnew, he⟩
    | refuse m hr _ _ hrefuse => exact .inl ⟨m, hr, hrefuse.1, hrefuse.2⟩

lemma Evaluable.rethrow_runs {Q : Unit → ModuleState M ε → Prop} (h : Evaluable g s)
    (herror : s.status root = .evaluatedError) :
    Runs (InnerModuleEvaluation badModuleStatus g body (fuel + 1) root 0) s.clearStack
      (fun _ _ => False) fun e s' => Runs (handleEvaluationError root e) s' Q fun e s' =>
        Evaluable g s' ∧ Evaluates badModuleStatus g body (fuel + 1) root s (.error e) s' := by
  have hp := evaluationPhase_lawful (M := M) badModuleStatus
  have hvs : root ∉ s.clearStack.visited (evaluationPhase M badModuleStatus) :=
    fun hv => absurd (herror.symm.trans (h.mem_visited.mp hv)) nofun
  have hpending : s.clearStack.status root ≠ .linked := fun hn => absurd (herror.symm.trans hn) nofun
  refine ((h.searchInv badModuleStatus).refused_runs hp hvs hpending).with_eq.imp
    (fun _ _ hf => hf.2) fun e s' hr => ?_
  obtain ⟨heq, rfl, -, he⟩ := hr
  refine handleEvaluationError_runs nodup_nil (fun m => iff_of_false (h.not_evaluating m)
    not_mem_nil) (.inl rfl) fun l _ hl _ => ?_
  have hnil : l = [] := by
    refine eq_nil_iff_forall_not_mem.mpr fun m hm => ?_
    obtain hm | ⟨-, -, hn⟩ := hl m hm
    · exact not_mem_nil hm
    · exact hn herror
  rw [hnil, ModuleState.fail_nil]
  refine ⟨{ h with }, prefix_rfl, fun hr => absurd hr nofun, fun e' he' => ?_,
    fun m hm => ⟨hm, rfl⟩, fun _ => ⟨e, he, rfl, rfl⟩,
    fun d _ _ => ⟨e, rfl, id, .inl ⟨root, .refl, herror, he⟩⟩⟩
  cases he'
  exact ⟨s.clearStack, heq, fun m hm => absurd hm not_mem_nil⟩

lemma Thrown.handleEvaluation_runs {Q : Unit → ModuleState M ε → Prop} {lost : Option M}
    (h : Evaluable g s) (hst : s.status root = .linked)
    (ht : Thrown g (evaluationPhase M badModuleStatus) (executes body)
      (fun st error e => st = .evaluatedError ∧ error = some e) root s.clearStack s' e lost)
    (heq : InnerModuleEvaluation badModuleStatus g body fuel root 0 s.clearStack = some (.error e, s')) :
    Runs (handleEvaluationError root e) s' Q fun e s' =>
      Evaluable g s' ∧ Evaluates badModuleStatus g body fuel root s (.error e) s' := by
  obtain ⟨ext, busy, habort, -⟩ := ht.abort
  have hnodup : s'.stack.Nodup :=
    (show s'.stack.Pairwise _ from habort.valid.sorted).imp fun hlt heq =>
      absurd (heq ▸ hlt) (lt_irrefl _)
  have hbusy : ∀ m, s'.status m = .evaluating ↔ m ∈ s'.stack := by
    intro m
    refine (ht.busy_iff m).trans (or_iff_left fun hlost => ?_)
    obtain ⟨he, -⟩ := (hlost ▸ ht.cause).append_of_some
    cases he
  refine handleEvaluationError_runs hnodup hbusy ht.bottom fun l hin hl _ => ?_
  have hl' : ∀ m ∈ l, s'.status m ≠ .evaluated ∧ s'.status m ≠ .evaluatedError := by
    intro m hm
    obtain hm | ⟨rfl, -, hn⟩ := hl m hm
    · rw [(hbusy m).mpr hm]
      exact ⟨nofun, nofun⟩
    · exact ⟨ht.root_not_evaluated h, hn⟩
  exact ⟨ht.evaluable h hin fun m hm => (hl' m hm).1, ht.evaluates h hst heq hin fun m hm => (hl' m hm).2⟩

lemma ModuleEvaluate_runs [Finite M] (badModuleStatus : ε) (body : M → Option ε) (root : M)
    (h : Evaluable g s) (hfuel : Nat.card M < fuel) :
    Runs (ModuleEvaluate badModuleStatus g body fuel root) s
      (fun _ s' => Evaluable g s' ∧ Evaluates badModuleStatus g body fuel root s (.ok ()) s')
      fun e s' => Evaluable g s' ∧ Evaluates badModuleStatus g body fuel root s (.error e) s' := by
  have hroot := h.status root
  obtain ⟨fuel, rfl⟩ := Nat.exists_eq_succ_of_ne_zero (Nat.ne_zero_of_lt hfuel)
  refine .bind <| .get <| .ite (fun hn => ?_) fun _ => .bind <| .modify <| .bind <| .tryCatch <| .bind ?_
  · exact hroot.elim (fun hst => absurd hst hn.1) fun hst =>
      hst.elim (fun hst => absurd hst hn.2.1) fun hst => absurd hst hn.2.2
  obtain hst | hst | herror := hroot
  · have hleft : remaining Set.univ (s.clearStack.visited (evaluationPhase M badModuleStatus)) < fuel + 1 := by
      have hle := remaining_le_ncard Set.finite_univ
        (S := s.clearStack.visited (evaluationPhase M badModuleStatus))
      rw [Set.ncard_univ] at hle
      exact hle.trans_lt hfuel
    refine (innerModule_runs (evaluationPhase_lawful badModuleStatus) (fuel + 1) root 0 s.clearStack
      (h.searchInv badModuleStatus) nofun hleft).with_eq.imp
      (fun next s' hr => .pure <| .bind <| .get ?_) fun e s' hr => ?_
    · obtain ⟨-, ⟨hv, -⟩ | hr⟩ := hr
      · cases hst.symm.trans (h.mem_visited.mp hv)
      · obtain ⟨hstack, hst', h'⟩ := hr.evaluable h
        exact .bind <| .assert hst' <| .assert (congrArg List.length hstack) ⟨h', hr.evaluates h hst⟩
    · obtain ⟨heq, lost, ht⟩ := hr
      exact ht.handleEvaluation_runs h hst heq
  · rw [InnerModuleEvaluation, innerModule]
    refine .bind <| .get <| .ite (fun _ => .pure <| .pure <| .bind <| .get <| .bind <| .assert hst <|
      .assert rfl ⟨{ h with }, h.evaluates_evaluated hst⟩) fun hn => absurd (h.mem_visited.mpr hst) hn
  · exact (h.rethrow_runs herror).imp (fun _ _ hf => hf.elim) fun _ _ hr => hr

/-- **Evaluation**: whatever calls there have been, the next call does what it promises, and after it no
module has been executed twice and none is being executed. -/
theorem evaluations_correct [Finite M] (badModuleStatus : ε) (g : ModuleGraph M)
    (body : M → Option ε) (h : AllLinked s) (hfuel : Nat.card M < fuel) (roots : List M) :
    ∃ rs s₁, evaluateAll badModuleStatus g body fuel roots s = some (rs, s₁) ∧
      ∀ root, ∃ r s₂, ModuleEvaluate badModuleStatus g body fuel root s₁ = some (r, s₂) ∧
        Evaluates badModuleStatus g body fuel root s₁ r s₂ ∧
        s₂.attempts.Nodup ∧ ∀ m, s₂.status m ≠ .evaluating := by
  have hnext : ∀ root {s₁ : ModuleState M ε}, Evaluable g s₁ →
      ∃ r s₂, ModuleEvaluate badModuleStatus g body fuel root s₁ = some (r, s₂) ∧
        Evaluable g s₂ ∧ Evaluates badModuleStatus g body fuel root s₁ r s₂ := by
    intro root s₁ h₁
    obtain ⟨r, s₂, heq, hr⟩ := ModuleEvaluate_runs badModuleStatus body root h₁ hfuel
    cases r with
    | ok _ => exact ⟨_, s₂, heq, hr⟩
    | error e => exact ⟨_, s₂, heq, hr⟩
  have hall : ∀ (roots : List M) (s : ModuleState M ε), Evaluable g s →
      ∃ rs s₁, evaluateAll badModuleStatus g body fuel roots s = some (rs, s₁) ∧ Evaluable g s₁ := by
    intro roots
    induction roots with
    | nil => exact fun s h => ⟨[], s, rfl, h⟩
    | cons root roots ih =>
      intro s h
      obtain ⟨r, s₁, heq, h₁, -⟩ := hnext root h
      obtain ⟨rs, s₂, heq₂, h₂⟩ := ih s₁ h₁
      refine ⟨r :: rs, s₂, ?_, h₂⟩
      simp [evaluateAll, heq, heq₂, bind_eq_bind, bind_some]
  obtain ⟨rs, s₁, heq, h₁⟩ := hall roots s h.evaluable
  refine ⟨rs, s₁, heq, fun root => ?_⟩
  obtain ⟨r, s₂, heq₂, h₂, hr⟩ := hnext root h₁
  exact ⟨r, s₂, heq₂, hr, h₂.attempts_nodup, h₂.not_evaluating⟩

end Correctness

/-- A module that requests two others, whose bodies throw different errors. -/
def importTwo : ModuleGraph (Option Bool) where
  requestedModules
    | none => [[], [0]]
    | some _ => []
  HostResolveImportedModule _ r := some !r.isEmpty

def throwOwn (m : Option Bool) : Option Bool := m

def allLinked : ModuleState (Option Bool) Bool :=
  ⟨fun _ => .linked, fun _ => some 0, fun _ => some 0, fun _ => none, [], [], []⟩

lemma allLinked_linked : AllLinked allLinked := ⟨fun _ => rfl, fun _ => ⟨rfl, rfl⟩, rfl, rfl⟩

theorem evaluations_correct_importTwo :
    ∃ rs s₁, evaluateAll false importTwo throwOwn 4 [some true] allLinked = some (rs, s₁) ∧
      ∀ root, ∃ r s₂, ModuleEvaluate false importTwo throwOwn 4 root s₁ = some (r, s₂) ∧
        Evaluates false importTwo throwOwn 4 root s₁ r s₂ ∧
        s₂.attempts.Nodup ∧ ∀ m, s₂.status m ≠ .evaluating :=
  evaluations_correct false importTwo throwOwn allLinked_linked
    (by rw [Nat.card_eq_fintype_card]; decide) [some true]

/-- The evaluation of a module that leads to one in error throws a recorded error. -/
def RethrowsRecorded (g : ModuleGraph M) (root : M) (s : ModuleState M ε) (r : Except ε Unit) : Prop :=
  ∀ d, g.Reaches root d → s.status d = .evaluatedError → ∃ d' e, g.Reaches root d' ∧
    s.status d' = .evaluatedError ∧ s.evaluationError d' = some e ∧ r = .error e

/-- After the evaluation of the second module, that of the root throws the error of the first one. -/
theorem not_rethrowsRecorded_importTwo :
    ∃ rs s₁ r s₂, evaluateAll false importTwo throwOwn 4 [some true] allLinked = some (rs, s₁) ∧
      ModuleEvaluate false importTwo throwOwn 4 none s₁ = some (r, s₂) ∧
      ¬RethrowsRecorded importTwo none s₁ r := by
  have hrun : ((evaluateAll false importTwo throwOwn 4 [some true] allLinked).bind fun p =>
      (ModuleEvaluate false importTwo throwOwn 4 none p.2).map fun q =>
        (p.2.status none, p.2.status (some false), p.2.status (some true), p.2.evaluationError (some true),
          match q.1 with
          | .ok _ => none
          | .error e => some e)) =
      some (.linked, .linked, .evaluatedError, some true, some false) := by
    decide
  obtain ⟨⟨rs, s₁⟩, heq, hrun⟩ := bind_eq_some_iff.mp hrun
  obtain ⟨⟨r, s₂⟩, heq₂, hrun⟩ := map_eq_some_iff.mp hrun
  simp only [Prod.mk.injEq] at hrun
  obtain ⟨h0, h1, h2, herror, hr⟩ := hrun
  refine ⟨rs, s₁, r, s₂, heq, heq₂, fun h => ?_⟩
  have hE : importTwo.Requires none (some true) := ⟨[0], mem_cons_of_mem _ mem_cons_self, rfl⟩
  obtain ⟨d, e, -, hd, he, rfl⟩ := h (some true) (.single hE) h2
  have he₁ : e = false := some.inj hr
  match d with
  | none => exact absurd (h0.symm.trans hd) nofun
  | some false => exact absurd (h1.symm.trans hd) nofun
  | some true =>
    rw [herror, he₁] at he
    cases he

end SpiderMonkey
