import SpiderMonkey.Builtin.ModuleVisit

/-!
# Linking

`ModuleInstantiate` links the modules that a root leads to.  If something throws, the modules that are
on the stack are unlinked again, and the root if it did not get onto the stack.  Another module that did
not get onto the stack is not: it stays `linking`.
-/

namespace SpiderMonkey

open Relation Tarjan Script List

variable {M ε : Type}

/-- The phase of `InnerModuleLinking`. -/
def linkingPhase (M : Type) (badModuleStatus : ε) : Phase M ε where
  pending := .unlinked
  busy := .linking
  complete := .linked
  minimumStatus := .unlinked
  visited st := decide (st = .linking ∨ st = .linked ∨ st = .evaluated ∨ st = .evaluatedError)
  passed st := decide (st = .linking ∨ st = .linked ∨ st = .evaluated ∨ st = .evaluatedError)
  refuse _ := throw badModuleStatus
  badModuleStatus := badModuleStatus

section Code

variable [DecidableEq M]

/-- What is run for a module is `InitializeEnvironment`. -/
def InnerModuleLinking (badModuleStatus : ε) (g : ModuleGraph M) (throws : ModuleStep M → Option ε)
    (fuel : ℕ) (module : M) (index : ℕ) : Script (ModuleState M ε) ε ℕ :=
  innerModule g throws (linkingPhase M badModuleStatus) fuel module index

def HandleModuleInstantiationFailure (module : M) : Script (ModuleState M ε) ε Unit := do
  ModuleSetStatus module .unlinked
  modify fun s => { s with
    dfsIndex := Function.update s.dfsIndex module none
    dfsAncestorIndex := Function.update s.dfsAncestorIndex module none }

def unlinkModules : List M → Script (ModuleState M ε) ε Unit
  | [] => return ()
  | m :: stack => do
    let s ← get
    if s.status m = .linking then do
      HandleModuleInstantiationFailure m
      unlinkModules stack
    else unlinkModules stack

/-- The root that did not get onto the stack. -/
def unlinkRoot (module : M) : Script (ModuleState M ε) ε Unit := do
  let s ← get
  if s.stack.length = 0 ∧ s.status module = .linking then HandleModuleInstantiationFailure module
  else return ()

def handleLinkingError (module : M) (error : ε) : Script (ModuleState M ε) ε Unit := do
  let s ← get
  unlinkModules s.stack
  unlinkRoot module
  let s ← get
  assert (s.status module ≠ .linking)
  throw error

/-- What is run is recorded from the start of the call. -/
def ModuleInstantiate (badModuleStatus : ε) (g : ModuleGraph M) (throws : ModuleStep M → Option ε)
    (fuel : ℕ) (module : M) : Script (ModuleState M ε) ε Unit := do
  let s ← get
  if s.status module = .linking ∨ s.status module = .evaluating then throw badModuleStatus
  else do
    modify fun s => { s with stack := [], attempts := [], ran := [] }
    tryCatch (do
      step throws (.call none)
      let _ ← InnerModuleLinking badModuleStatus g throws fuel module 0) (handleLinkingError module)
    let s ← get
    assert (s.status module = .linked ∨ s.status module = .evaluated ∨ s.status module = .evaluatedError)
    assert (s.stack.length = 0)

end Code

/-! ## The handler -/

lemma linkingPhase_lawful (badModuleStatus : ε) :
    (linkingPhase M badModuleStatus).Lawful fun st _ _ => st = .evaluating where
  visited_pending := rfl
  visited_busy := rfl
  visited_complete := rfl
  pending_lt_busy := Nat.zero_lt_one
  busy_lt_complete := Nat.one_lt_two
  minimum_le := le_rfl
  passed_of_visited := fun _ h => h
  busy_ne_error := nofun
  complete_ne_error := nofun
  refuse := by
    intro m s hvisited hpending _ _
    refine ⟨badModuleStatus, rfl, ?_⟩
    cases h : s.status m with
    | unlinked => exact absurd h hpending
    | evaluating => rfl
    | linking | linked | evaluated | evaluatedError =>
      rw [h] at hvisited
      exact Bool.noConfusion hvisited

section Handler

variable [DecidableEq M]

namespace ModuleState

def unlink (l : List M) (s : ModuleState M ε) : ModuleState M ε :=
  { s with
    status := fun m => if m ∈ l then .unlinked else s.status m
    dfsIndex := fun m => if m ∈ l then none else s.dfsIndex m
    dfsAncestorIndex := fun m => if m ∈ l then none else s.dfsAncestorIndex m }

end ModuleState

variable {s : ModuleState M ε} {m : M} {l : List M} {Q : Unit → ModuleState M ε → Prop}
  {R : ε → ModuleState M ε → Prop}

lemma HandleModuleInstantiationFailure_runs (hm : s.status m = .linking) (h : Q () (s.unlink [m])) :
    Runs (HandleModuleInstantiationFailure m) s Q R := by
  refine .bind <| .bind <| .get <| .bind <| .assert (.inl ?_) <| .modify <| .modify ?_
  · rw [hm]
    exact ⟨Nat.le_succ 1, rfl⟩
  · simp only [update_eq_ite]
    exact h

lemma ModuleState.unlink_unlink (m : M) (l : List M) (s : ModuleState M ε) :
    (s.unlink [m]).unlink l = s.unlink (m :: l) := by
  simp only [ModuleState.unlink, ite_mem_cons]

lemma unlinkModules_runs (l : List M) : ∀ {s : ModuleState M ε}, l.Nodup →
    (∀ m ∈ l, s.status m = .linking) → Q () (s.unlink l) → Runs (unlinkModules l) s Q R := by
  induction l with
  | nil =>
    intro s _ _ h
    have heq : s.unlink [] = s := by simp [ModuleState.unlink]
    exact .pure (heq ▸ h)
  | cons m l ih =>
    intro s hnodup hlinking h
    obtain ⟨hm, hnodup⟩ := nodup_cons.mp hnodup
    refine .bind <| .get <| .ite (fun _ => .bind ?_) fun hn =>
      absurd (hlinking m mem_cons_self) hn
    refine HandleModuleInstantiationFailure_runs (hlinking m mem_cons_self) ?_
    refine ih hnodup (fun x hx => ?_) (ModuleState.unlink_unlink m l s ▸ h)
    have hne : x ∉ [m] := fun hx' => ne_of_mem_of_not_mem hx hm (mem_singleton.mp hx')
    exact (if_neg hne).trans (hlinking x (mem_cons_of_mem m hx))

lemma handleLinkingError_runs {root : M} {lost : Option M} {e : ε} (hnodup : s.stack.Nodup)
    (hbusy : ∀ m, s.status m = .linking ↔ m ∈ s.stack ∨ lost = some m)
    (hroot : lost = some root → s.stack = [])
    (h : R e (s.unlink (if lost = some root then [root] else s.stack))) :
    Runs (handleLinkingError root e) s Q R := by
  refine .bind <| .get <| .bind <|
    unlinkModules_runs s.stack hnodup (fun m hm => (hbusy m).mpr (.inl hm)) <| .bind <| .bind <| .get ?_
  split_ifs at h with hl
  · rw [hroot hl]
    have hlinking : s.status root = .linking := (hbusy root).mpr (.inr hl)
    have hnil : s.unlink [] = s := by simp [ModuleState.unlink]
    rw [hnil]
    refine .ite (fun _ => HandleModuleInstantiationFailure_runs hlinking <| .bind <| .get <| .bind <|
      .assert ?_ <| .throw h) fun hn => absurd ⟨congrArg List.length (hroot hl), hlinking⟩ hn
    rw [show (s.unlink [root]).status root = .unlinked from if_pos mem_cons_self]
    exact nofun
  · have hnot : (s.unlink s.stack).status root ≠ .linking := by
      show (if root ∈ s.stack then .unlinked else s.status root) ≠ _
      split
      · exact nofun
      next hr => exact fun hb => ((hbusy root).mp hb).elim hr hl
    exact .ite (fun hc => absurd hc.2 hnot) fun _ => .pure <| .bind <| .get <| .bind <| .assert hnot <| .throw h

end Handler

/-! ## Correctness -/

/-- The states in which modules are linked: what is linked leads to modules that are, and has numbers. -/
structure Instantiable (g : ModuleGraph M) (s : ModuleState M ε) : Prop where
  not_linking : ∀ m, s.status m ≠ .linking
  not_evaluating : ∀ m, s.status m ≠ .evaluating
  closed : ∀ m m', g.Requires m m' → s.status m ≠ .unlinked → s.status m' ≠ .unlinked
  slots : ∀ m, s.status m ≠ .unlinked → (s.dfsIndex m).isSome = true ∧ (s.dfsAncestorIndex m).isSome = true
  no_slots : ∀ m, s.status m = .unlinked → s.dfsIndex m = none ∧ s.dfsAncestorIndex m = none
  errors : ∀ m, s.status m = .evaluatedError → (s.evaluationError m).isSome = true

/-- What `ModuleInstantiate` promises if it returns. -/
structure InstantiateReturned (g : ModuleGraph M) (root : M) (s s' : ModuleState M ε) : Prop where
  linked : ∀ m, g.Reaches root m → ModuleStatus.linked.toNat ≤ (s'.status m).toNat
  stack : s'.stack = []
  attempts_nodup : s'.attempts.Nodup
  ran_nodup : s'.ran.Nodup
  mem_ran : ∀ m, m ∈ s'.ran ↔ s.status m = .unlinked ∧ g.Reaches root m
  order : ∀ l₁ m l₂, s'.ran = l₁ ++ m :: l₂ → ∀ d, g.DependsOn m d → s.status d = .unlinked → d ∈ l₁
  unchanged : ∀ m, s.status m ≠ .unlinked ∨ ¬g.Reaches root m → s'.status m = s.status m ∧
    s'.dfsIndex m = s.dfsIndex m ∧ s'.dfsAncestorIndex m = s.dfsAncestorIndex m
  instantiable : Instantiable g s'

/-- What `ModuleInstantiate` promises if it throws.  The component of a module is complete when
something was run for all of its modules. -/
structure InstantiateThrew (g : ModuleGraph M) (s s' : ModuleState M ε) : Prop where
  not_linking : ∀ m, s'.status m ≠ .linking
  complete : ∀ m, s.status m = .unlinked → (∀ c ∈ component g.Requires m, c ∈ s'.ran) → s'.status m = .linked
  incomplete : ∀ m, s.status m = .unlinked → ¬(∀ c ∈ component g.Requires m, c ∈ s'.ran) →
    s'.status m = .unlinked ∧ s'.dfsIndex m = none ∧ s'.dfsAncestorIndex m = none
  unchanged : ∀ m, s.status m ≠ .unlinked → s'.status m = s.status m ∧
    s'.dfsIndex m = s.dfsIndex m ∧ s'.dfsAncestorIndex m = s.dfsAncestorIndex m
  /-- Modules can be linked again. -/
  instantiable : Instantiable g s'

section Correctness

variable {g : ModuleGraph M} {s s' : ModuleState M ε} {badModuleStatus : ε} {m root : M}
  {throws : ModuleStep M → Option ε}

/-- The state in which the search starts. -/
def ModuleState.start (s : ModuleState M ε) : ModuleState M ε :=
  { s with stack := [], attempts := [], ran := [] }

lemma mem_visited_linking (hm : s.status m ≠ .evaluating) :
    m ∈ s.visited (linkingPhase M badModuleStatus) ↔ s.status m ≠ .unlinked := by
  show decide _ = true ↔ _
  rw [decide_eq_true_iff]
  cases h : s.status m with
  | evaluating => exact absurd h hm
  | unlinked => exact iff_of_false (by decide) fun h => h rfl
  | linking => exact iff_of_true (.inl rfl) nofun
  | linked => exact iff_of_true (.inr (.inl rfl)) nofun
  | evaluated => exact iff_of_true (.inr (.inr (.inl rfl))) nofun
  | evaluatedError => exact iff_of_true (.inr (.inr (.inr rfl))) nofun

namespace Instantiable

lemma mem_visited (h : Instantiable g s) :
    m ∈ s.start.visited (linkingPhase M badModuleStatus) ↔ s.status m ≠ .unlinked :=
  mem_visited_linking (s := s.start) (h.not_evaluating m)

lemma searchInv (h : Instantiable g s) (badModuleStatus : ε) :
    SearchInv g (linkingPhase M badModuleStatus) s.start 0 where
  busy_iff := fun m => iff_of_false (h.not_linking m) not_mem_nil
  valid := by
    refine ⟨List.Pairwise.nil, fun x hx => absurd hx not_mem_nil, fun x hx y hE => ?_⟩
    exact ⟨h.mem_visited.mpr (h.closed x y hE (h.mem_visited.mp hx.1)), h.not_linking y⟩
  slots := fun m hm => h.slots m (h.mem_visited.mp hm)
  index_lt := fun m hm => absurd hm not_mem_nil
  ancestor := fun m hm => absurd hm not_mem_nil
  minimum := fun m => Nat.zero_le _
  errors := h.errors
  traced := ⟨nodup_nil, nodup_nil, List.Subset.refl _, fun m hm => absurd hm not_mem_nil⟩

end Instantiable

/-- A module is as before, or it was unlinked and is being linked or is linked. -/
lemma Effect.linking_cases {new : List M} {lost : Option M} (h : Instantiable g s)
    (heffect : Effect g (linkingPhase M badModuleStatus) throws s.start s' new lost) (m : M) :
    (s'.status m = s.status m ∧ s'.dfsIndex m = s.dfsIndex m ∧ s'.dfsAncestorIndex m = s.dfsAncestorIndex m) ∨
    s.status m = .unlinked ∧ (s'.status m = .linking ∨ m ∈ new ∧ s'.status m = .linked) := by
  by_cases hs : m ∈ s.start.visited (linkingPhase M badModuleStatus)
  · exact .inl (heffect.frame m (.inl hs))
  by_cases hs' : m ∈ s'.visited (linkingPhase M badModuleStatus)
  · refine .inr ⟨not_not.mp fun hn => hs (h.mem_visited.mpr hn), ?_⟩
    by_cases hb : s'.status m = .linking
    · exact .inl hb
    · exact .inr (heffect.done_new m ⟨hs', hb⟩ fun hd => hs hd.1)
  · exact .inl (heffect.frame m (.inr hs'))

lemma Effect.not_evaluating {new : List M} {lost : Option M} (h : Instantiable g s)
    (heffect : Effect g (linkingPhase M badModuleStatus) throws s.start s' new lost) (m : M) :
    s'.status m ≠ .evaluating := by
  obtain ⟨hst, -⟩ | ⟨-, hst | ⟨-, hst⟩⟩ := heffect.linking_cases h m
  · rw [hst]
    exact h.not_evaluating m
  · simp [hst]
  · simp [hst]

lemma Returned.instantiateReturned {next : ℕ} (h : Instantiable g s)
    (hr : Returned g (linkingPhase M badModuleStatus) throws root s.start s' next) :
    InstantiateReturned g root s s' ∧ ∀ m, s.status m = .unlinked → g.Reaches root m → throws (.append m) = none := by
  have hp := linkingPhase_lawful (M := M) badModuleStatus
  obtain ⟨new, heffect, hnew⟩ := hr.effect
  obtain ⟨hstack, hexplores⟩ : s'.stack = [] ∧ Explores g.Requires {root}
      (s.start.visited (linkingPhase M badModuleStatus))
      (s'.visited (linkingPhase M badModuleStatus)) := by
    rw [← hr.inv.visited_eq hp, ← (h.searchInv badModuleStatus).visited_eq hp]
    obtain ⟨low, hvisit⟩ | ⟨ext, low, hvisit, -⟩ := hr.visit
    · exact ⟨hvisit.stack_eq, hvisit.explores⟩
    · obtain ⟨y, hy, -⟩ := hvisit.returns root mem_cons_self
      cases hy
  have hnot : ∀ m, s'.status m ≠ .linking := by
    intro m hm
    have hmem := (hr.inv.busy_iff m).mp hm
    rw [hstack] at hmem
    exact not_mem_nil hmem
  have hvisited : ∀ m, m ∈ s'.visited (linkingPhase M badModuleStatus) ↔ s'.status m ≠ .unlinked :=
    fun m => mem_visited_linking (heffect.not_evaluating h m)
  have hclosed : ∀ m m', s'.status m ≠ .unlinked → g.Reaches m m' → s'.status m' ≠ .unlinked := by
    intro m m' hm hreach
    have hdone : m ∈ (s'.abs (linkingPhase M badModuleStatus)).done := ⟨(hvisited m).mpr hm, hnot m⟩
    exact (hvisited m').mp (hr.inv.valid.done_of_reachable hdone hreach).1
  have hreached : ∀ m, g.Reaches root m → s'.status m ≠ .unlinked :=
    fun m hm => hclosed root m ((hvisited root).mp (hexplores.roots_subset rfl)) hm
  have hran : s'.ran = new := heffect.ran_eq
  have hunlinked : ∀ m, s.status m = .unlinked →
      m ∉ s.start.visited (linkingPhase M badModuleStatus) := fun m hm hs => h.mem_visited.mp hs hm
  refine ⟨⟨fun m hm => ?_, hstack, hr.inv.traced.attempts_nodup, hr.inv.traced.ran_nodup, fun m => ?_,
    fun l₁ m l₂ heq d hd hst => ?_, fun m hm => ?_, ⟨hnot, heffect.not_evaluating h,
      fun m m' hE hm => hclosed m m' hm (.single hE),
      fun m hm => hr.inv.slots m ((hvisited m).mpr hm), fun m hm => ?_, hr.inv.errors⟩⟩,
    fun m hst hm => heffect.quiet m ((hvisited m).mpr (hreached m hm)) (hunlinked m hst) nofun⟩
  · have h₁ := hreached m hm
    have h₂ := hnot m
    revert h₁ h₂
    cases s'.status m <;> decide
  · rw [hran]
    constructor
    · intro hm
      obtain ⟨hm', hn⟩ := heffect.mem_new m hm
      obtain ⟨r, rfl, hreach⟩ := hexplores.reachable m hm' hn
      exact ⟨not_not.mp fun hst => hn (h.mem_visited.mpr hst), hreach⟩
    · exact fun hm => hnew m ((hvisited m).mpr (hreached m hm.2)) (hunlinked m hm.1)
  · obtain hd | hd | hd := heffect.order l₁ m l₂ (hran ▸ heq) d hd
    · exact hd
    · cases hd
    · exact absurd hd.1 (hunlinked d hst)
  · by_cases hs : m ∈ s.start.visited (linkingPhase M badModuleStatus)
    · exact heffect.frame m (.inl hs)
    · refine heffect.frame m (.inr fun hm' => ?_)
      obtain ⟨r, rfl, hreach⟩ := hexplores.reachable m hm' hs
      exact hm.elim (fun hst => hs (h.mem_visited.mpr hst)) fun hn => hn hreach
  · obtain ⟨hst, hslots⟩ := heffect.frame m (.inr fun hm' => (hvisited m).mp hm' hm)
    obtain ⟨hidx, hanc⟩ := h.no_slots m (hst.symm.trans hm)
    exact ⟨hslots.1.trans hidx, hslots.2.trans hanc⟩

lemma Thrown.instantiateThrew [DecidableEq M] {e : ε} {lost : Option M} (h : Instantiable g s)
    (ht : Thrown g (linkingPhase M badModuleStatus) throws (fun st _ _ => st = .evaluating) root
      s.start s' e lost) {l : List M} (hl : ∀ m, m ∈ l ↔ s'.status m = .linking) :
    InstantiateThrew g s (s'.unlink l) := by
  obtain ⟨new, heffect⟩ := ht.effect
  obtain ⟨ext, busy, habort, hbusy⟩ := ht.abort
  have hran : s'.ran = new := heffect.ran_eq
  have hin : ∀ m ∈ l, (s'.unlink l).status m = .unlinked ∧ (s'.unlink l).dfsIndex m = none ∧
      (s'.unlink l).dfsAncestorIndex m = none := fun m hm => ⟨if_pos hm, if_pos hm, if_pos hm⟩
  have hout : ∀ m, m ∉ l → (s'.unlink l).status m = s'.status m ∧ (s'.unlink l).dfsIndex m = s'.dfsIndex m ∧
      (s'.unlink l).dfsAncestorIndex m = s'.dfsAncestorIndex m :=
    fun m hm => ⟨if_neg hm, if_neg hm, if_neg hm⟩
  have hvisited : ∀ m, m ∈ s'.visited (linkingPhase M badModuleStatus) ↔ s'.status m ≠ .unlinked :=
    fun m => mem_visited_linking (heffect.not_evaluating h m)
  -- The modules that are done are those that the handler leaves linked.
  have hdone : ∀ m, m ∈ (s'.abs (linkingPhase M badModuleStatus)).done ↔ (s'.unlink l).status m ≠ .unlinked := by
    intro m
    by_cases hm : m ∈ l
    · exact iff_of_false (fun hd => hd.2 ((hl m).mp hm)) fun hn => hn (hin m hm).1
    · rw [(hout m hm).1, ← hvisited]
      exact ⟨fun hd => hd.1, fun hv => ⟨hv, fun hb => hm ((hl m).mpr hb)⟩⟩
  -- A component is complete when its modules are done.
  have hcases : ∀ m, s.status m = .unlinked →
      ((s'.unlink l).status m = .linked ∧ ∀ c ∈ component g.Requires m, c ∈ s'.ran) ∨
      ((s'.unlink l).status m = .unlinked ∧ (s'.unlink l).dfsIndex m = none ∧
        (s'.unlink l).dfsAncestorIndex m = none) ∧ ¬∀ c ∈ component g.Requires m, c ∈ s'.ran := by
    intro m hm
    have hself : m ∈ component g.Requires m := ⟨.refl, .refl⟩
    by_cases hml : m ∈ l
    · refine .inr ⟨hin m hml, fun hall => ?_⟩
      obtain hs | hlm := (ht.busy_iff m).mp ((hl m).mp hml)
      · have hstack : s'.stack = [] ++ ext := habort.stack_eq
        rw [hstack] at hs
        obtain ⟨y, hy, -⟩ | ⟨b, hb, hmb, hbm⟩ := habort.returns m hs
        · exact not_mem_nil hy
        · exact hbusy b hb (hall b ⟨hbm, hmb⟩)
      · exact ht.lost_idle m hlm (ht.traced.ran_subset (hall m hself))
    · obtain ⟨hst, hidx, hanc⟩ := hout m hml
      rw [hst, hidx, hanc]
      obtain ⟨hst', hidx', hanc'⟩ | ⟨-, hb | ⟨hmn, hst'⟩⟩ := heffect.linking_cases h m
      · refine .inr ⟨⟨hst'.trans hm, hidx'.trans (h.no_slots m hm).1, hanc'.trans (h.no_slots m hm).2⟩, fun hall => ?_⟩
        have hmem := hall m hself
        rw [hran] at hmem
        exact (hvisited m).mp (heffect.mem_new m hmem).1 (hst'.trans hm)
      · exact absurd ((hl m).mpr hb) hml
      · refine .inl ⟨hst', fun c hc => ?_⟩
        have hmd : m ∈ (s'.abs (linkingPhase M badModuleStatus)).done := (hdone m).mpr (by rw [hst, hst']; exact nofun)
        have hcd := habort.valid.done_of_reachable hmd hc.1
        rw [hran]
        refine (heffect.done_new c hcd fun hs => ?_).1
        have hstart := h.searchInv badModuleStatus
        exact h.mem_visited.mp (hstart.valid.done_of_reachable hs hc.2).1 hm
  have hnot : ∀ m, (s'.unlink l).status m ≠ .linking := by
    intro m
    by_cases hm : m ∈ l
    · rw [(hin m hm).1]
      exact nofun
    · rw [(hout m hm).1]
      exact fun hb => hm ((hl m).mpr hb)
  have hkept : ∀ m, (s'.unlink l).status m ≠ .unlinked → m ∉ l := fun m hm hml => hm (hin m hml).1
  refine ⟨hnot, fun m hm hall => ?_, fun m hm hall => ?_, fun m hm => ?_, ⟨hnot, fun m => ?_,
    fun m m' hE hm => (hdone m').mp (habort.valid.closed m ((hdone m).mpr hm) m' hE), fun m hm => ?_,
    fun m hm => ?_, fun m hm => ?_⟩⟩
  · exact ((hcases m hm).resolve_right fun hn => hn.2 hall).1
  · exact ((hcases m hm).resolve_left fun hn => hall hn.2).1
  · obtain ⟨hst, hslots⟩ | ⟨hn, -⟩ := heffect.linking_cases h m
    · obtain ⟨hst', hidx', hanc'⟩ := hout m fun hml =>
        h.not_linking m (hst.symm.trans ((hl m).mp hml))
      exact ⟨hst'.trans hst, hidx'.trans hslots.1, hanc'.trans hslots.2⟩
    · exact absurd hn hm
  · by_cases hm : m ∈ l
    · rw [(hin m hm).1]
      exact nofun
    · rw [(hout m hm).1]
      exact heffect.not_evaluating h m
  · obtain ⟨hst, hidx, hanc⟩ := hout m (hkept m hm)
    rw [hidx, hanc]
    exact ht.slots m ((hvisited m).mpr (hst ▸ hm))
  · by_cases hml : m ∈ l
    · exact (hin m hml).2
    · obtain ⟨hst, hidx, hanc⟩ := hout m hml
      rw [hst] at hm
      rw [hidx, hanc]
      obtain ⟨hst', hidx', hanc'⟩ | ⟨-, hb | ⟨-, hst'⟩⟩ := heffect.linking_cases h m
      · rw [hidx', hanc']
        exact h.no_slots m (hst'.symm.trans hm)
      · cases hm.symm.trans hb
      · cases hm.symm.trans hst'
  · have hml := hkept m (by rw [hm]; exact nofun)
    rw [(hout m hml).1] at hm
    show (s'.evaluationError m).isSome = true
    rw [heffect.errors_eq]
    obtain ⟨hst', -⟩ | ⟨-, hb | ⟨-, hst'⟩⟩ := heffect.linking_cases h m
    · exact h.errors m (hst'.symm.trans hm)
    · cases hm.symm.trans hb
    · cases hm.symm.trans hst'

variable [DecidableEq M] [Finite M]

omit [Finite M] in
lemma Thrown.handle_runs {e : ε} {lost : Option M} {Q : Unit → ModuleState M ε → Prop}
    (h : Instantiable g s) (ht : Thrown g (linkingPhase M badModuleStatus) throws
      (fun st _ _ => st = .evaluating) root s.start s' e lost) :
    Runs (handleLinkingError root e) s' Q
      fun e s' => InstantiateThrew g s s' ∧ (∃ st, throws st = some e ∧ ∀ m, st = .append m → m = root) ∨
        ∃ m, m ≠ root ∧ throws (.append m) = some e ∧ s.status m = .unlinked ∧ g.Reaches root m ∧
          s'.status m = .linking := by
  obtain ⟨new, heffect⟩ := ht.effect
  obtain ⟨ext, busy, habort, -⟩ := ht.abort
  have hnodup : s'.stack.Nodup :=
    (show s'.stack.Pairwise _ from habort.valid.sorted).imp fun hlt heq =>
      absurd (heq ▸ hlt) (lt_irrefl _)
  have hroot : lost = some root → s'.stack = [] := by
    intro hl
    obtain ⟨-, -, hstack⟩ := (hl ▸ ht.cause).append_of_some
    exact ht.bottom.resolve_right hstack
  refine handleLinkingError_runs hnodup ht.busy_iff hroot ?_
  split_ifs with hl
  · refine .inl ⟨ht.instantiateThrew h fun m => ?_, ?_⟩
    · refine .trans ?_ (ht.busy_iff m).symm
      rw [hroot hl, hl, or_iff_right not_mem_nil, mem_singleton, Option.some_inj, eq_comm]
    · obtain ⟨he, -⟩ := (hl ▸ ht.cause).append_of_some
      exact ⟨.append root, he, fun m hm => (ModuleStep.append.inj hm).symm⟩
  · cases hcause : lost with
    | none =>
      subst hcause
      refine .inl ⟨ht.instantiateThrew h fun m => ?_, ?_⟩
      · exact (or_iff_left nofun).symm.trans (ht.busy_iff m).symm
      · cases ht.cause with
        | call c he => exact ⟨_, he, nofun⟩
        | resolve m i he => exact ⟨_, he, nofun⟩
        | run m he => exact ⟨_, he, nofun⟩
        | refuse m _ _ _ hst => exact absurd hst (h.not_evaluating m)
    | some m =>
      subst hcause
      have hm : s'.status m = .linking := (ht.busy_iff m).mpr (.inr rfl)
      obtain ⟨he, hreach, hstack⟩ := ht.cause.append_of_some
      refine .inr ⟨m, fun heq => hl (congrArg some heq), he, ?_, hreach, (if_neg hstack).trans hm⟩
      obtain ⟨hst, -⟩ | ⟨hst, -⟩ := heffect.linking_cases h m
      · exact absurd (hst.symm.trans hm) (h.not_linking m)
      · exact hst

omit [DecidableEq M] [Finite M] in
lemma Instantiable.returned (h : Instantiable g s) (hroot : s.status root ≠ .unlinked) :
    InstantiateReturned g root s s.start ∧ ∀ m, s.status m = .unlinked → ¬g.Reaches root m := by
  have hreached : ∀ m, g.Reaches root m → s.status m ≠ .unlinked := by
    intro m hm
    induction hm with
    | refl => exact hroot
    | tail _ hE ih => exact h.closed _ _ hE ih
  refine ⟨⟨fun m hm => ?_, rfl, nodup_nil, nodup_nil, fun m => ?_, fun l₁ m l₂ heq => ?_,
    fun m _ => ⟨rfl, rfl, rfl⟩, { h with }⟩, fun m hst hm => hreached m hm hst⟩
  · have h₁ := hreached m hm
    have h₂ := h.not_linking m
    show _ ≤ (s.status m).toNat
    revert h₁ h₂
    cases s.status m <;> decide
  · exact iff_of_false not_mem_nil fun hm => hreached m hm.2 hm.1
  · cases l₁ <;> cases heq

/-- What a call does.  The only module that may be left `linking` is one that the allocation for the
stack has failed for. -/
lemma ModuleInstantiate_runs (badModuleStatus : ε) (throws : ModuleStep M → Option ε) (root : M)
    (h : Instantiable g s) {fuel : ℕ} (hfuel : Nat.card M < fuel) :
    Runs (ModuleInstantiate badModuleStatus g throws fuel root) s
      (fun _ s' => InstantiateReturned g root s s' ∧
        ∀ m, s.status m = .unlinked → g.Reaches root m → throws (.append m) = none)
      fun e s' => InstantiateThrew g s s' ∧ (∃ st, throws st = some e ∧ ∀ m, st = .append m → m = root) ∨
        ∃ m, m ≠ root ∧ throws (.append m) = some e ∧ s.status m = .unlinked ∧ g.Reaches root m ∧
          s'.status m = .linking := by
  have hp := linkingPhase_lawful (M := M) badModuleStatus
  have hstart := h.searchInv badModuleStatus
  have hleft : remaining Set.univ (s.start.visited (linkingPhase M badModuleStatus)) < fuel := by
    have hle := remaining_le_ncard Set.finite_univ
      (S := s.start.visited (linkingPhase M badModuleStatus))
    rw [Set.ncard_univ] at hle
    exact hle.trans_lt hfuel
  have hchecks : ∀ s', InstantiateReturned g root s s' → (s'.status root = .linked ∨
      s'.status root = .evaluated ∨ s'.status root = .evaluatedError) := by
    intro s' hr
    have h₁ := hr.linked root .refl
    have h₂ := hr.instantiable.not_evaluating root
    revert h₁ h₂
    cases s'.status root <;> decide
  refine .bind <| .get <| .ite (fun hst => hst.elim (fun hst => absurd hst (h.not_linking root))
    fun hst => absurd hst (h.not_evaluating root)) fun _ => .bind <| .modify <| .bind <| .tryCatch <|
    .bind <| step_runs (fun _ => .bind ?_) fun e he => (hstart.thrown (.call none he)).handle_runs h
  refine (innerModule_runs hp fuel root 0 s.start hstart nofun
    hleft).imp (fun next s' hr => .pure <| .bind <| .get ?_) fun e s' ⟨lost, ht⟩ => ht.handle_runs h
  have hr' : InstantiateReturned g root s s' ∧
      ∀ m, s.status m = .unlinked → g.Reaches root m → throws (.append m) = none := by
    obtain ⟨hroot, rfl, rfl⟩ | hr := hr
    · obtain ⟨hr, hnone⟩ := h.returned (h.mem_visited.mp hroot)
      exact ⟨hr, fun m hst hm => absurd hm (hnone m hst)⟩
    · exact hr.instantiateReturned h
  exact .bind <| .assert (hchecks s' hr'.1) <| .assert (congrArg List.length hr'.1.stack) hr'

/-- At most one step throws in a call. -/
def throwsAt (failure : Option (ModuleStep M × ε)) (st : ModuleStep M) : Option ε :=
  failure.bind fun f => if f.1 = st then some f.2 else none

/-- What a call promises, in which a given step throws or none. -/
def InstantiatesOrUnlinks (badModuleStatus : ε) (g : ModuleGraph M)
    (failure : Option (ModuleStep M × ε)) (fuel : ℕ) (root : M) (s : ModuleState M ε) : Prop :=
  Runs (ModuleInstantiate badModuleStatus g (throwsAt failure) fuel root) s
    (fun _ s' => InstantiateReturned g root s s') fun _ s' => InstantiateThrew g s s'

/-- **Linking either succeeds or is undone**, unless the allocation for the stack fails for a module
other than the root. -/
theorem instantiatesOrUnlinks_iff (g : ModuleGraph M) (failure : Option (ModuleStep M × ε)) (root : M)
    (h : Instantiable g s) {fuel : ℕ} (hfuel : Nat.card M < fuel) :
    InstantiatesOrUnlinks badModuleStatus g failure fuel root s ↔
      ¬∃ m e, failure = some (.append m, e) ∧ m ≠ root ∧ s.status m = .unlinked ∧ g.Reaches root m := by
  obtain ⟨r, s', heq, hr⟩ := ModuleInstantiate_runs badModuleStatus (throwsAt failure) root h hfuel
  have hthrows : ∀ {m : M} {e : ε}, throwsAt failure (.append m) = some e → failure = some (.append m, e) := by
    intro m e he
    obtain ⟨⟨st, e'⟩, hf, he⟩ := Option.bind_eq_some_iff.mp he
    split at he
    next hst => rw [hf, ← Option.some.inj he, ← show st = .append m from hst]
    next => exact absurd he nofun
  constructor
  · rintro ⟨r', s'', heq', hr'⟩ ⟨m, e, hf, hne, hst, hm⟩
    obtain ⟨rfl, rfl⟩ := Prod.mk.inj (Option.some.inj (heq'.symm.trans heq))
    have happend : throwsAt failure (.append m) = some e := by
      rw [throwsAt, hf]
      exact if_pos rfl
    cases r' with
    | ok a => exact absurd (happend.symm.trans (hr.2 m hst hm)) nofun
    | error e' =>
      obtain ⟨-, st, he, hroot⟩ | ⟨m', -, -, -, -, hlinking⟩ := hr
      · rw [throwsAt, hf] at he
        obtain ⟨hst', -⟩ := Option.ite_none_right_eq_some.mp he
        exact hne (hroot m hst'.symm)
      · exact hr'.not_linking m' hlinking
  · intro hn
    refine ⟨r, s', heq, ?_⟩
    cases r with
    | ok a => exact hr.1
    | error e =>
      obtain ⟨hr, -⟩ | ⟨m, hne, he, hst, hm, -⟩ := hr
      · exact hr
      · exact absurd ⟨m, e, hthrows he, hne, hst, hm⟩ hn

end Correctness

/-- A module that requests another one, both unlinked. -/
def importOne : ModuleGraph Bool := ⟨fun m => if m then [] else [[0]], fun _ _ => true⟩

def allUnlinked : ModuleState Bool Unit :=
  ⟨fun _ => .unlinked, fun _ => none, fun _ => none, fun _ => none, [], [], []⟩

lemma allUnlinked_instantiable : Instantiable importOne allUnlinked :=
  ⟨fun _ => nofun, fun _ => nofun, fun _ _ _ h => absurd rfl h, fun _ h => absurd rfl h,
    fun _ _ => ⟨rfl, rfl⟩, fun _ => nofun⟩

theorem instantiatesOrUnlinks_iff_importOne : InstantiatesOrUnlinks () importOne none 3 false allUnlinked :=
  (instantiatesOrUnlinks_iff importOne none false allUnlinked_instantiable
    (by rw [Nat.card_eq_fintype_card]; decide)).mpr fun ⟨_, _, h, _⟩ => absurd h nofun

/-- The allocation for the stack fails for the second module. -/
theorem not_instantiatesOrUnlinks_append :
    ¬InstantiatesOrUnlinks () importOne (some (.append true, ())) 3 false allUnlinked := by
  rintro ⟨r, s', heq, h⟩
  have hrun : (ModuleInstantiate () importOne (throwsAt (some (.append true, ()))) 3 false
      allUnlinked).map (fun r => r.2.status true) = some .linking := by decide
  rw [heq] at hrun
  have hlinking : s'.status true = .linking := Option.some.inj hrun
  cases r with
  | ok _ => exact h.instantiable.not_linking true hlinking
  | error _ => exact h.not_linking true hlinking

end SpiderMonkey
