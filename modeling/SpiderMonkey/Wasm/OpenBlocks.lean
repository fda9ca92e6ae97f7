import SpiderMonkey.Wasm.Nesting
import SpiderMonkey.Wasm.Paths

/-!
# From the beginning of a block to its end

What lies below a block is as it was when its end is reached, whatever the types are and whether or not
the code in it can be reached.
-/

namespace SpiderMonkey.Wasm

open OpIter List Option

variable {env : ModuleEnvironment} {locals : List ValType} {f g : Frame} {s s' : OpIter}
  {stack stack' : List StackType} {p : Bool} {ts : List ValType}

/-! ## The innermost block -/

lemma popStackType_frame {type : StackType} (h : (f.state stack p).popStackType = some (type, s')) :
    ∃ stack', s' = f.state stack' p ∧ (p = false → stack = type :: stack') := by
  cases stack with
  | nil =>
    have hpop : (f.state [] p).popStackType = if p = true then some (.tvar, f.state [] p) else none := if_pos rfl
    rw [hpop] at h
    cases p with
    | true =>
      rw [if_pos rfl] at h
      exact ⟨[], (Prod.mk.inj (Option.some.inj h)).2.symm, fun h => nomatch h⟩
    | false => cases h
  | cons top stack =>
    have hlength : ¬ (top :: stack ++ f.below).length = f.below.length := by
      rw [cons_append, length_cons, List.length_append]
      omega
    have hpop : (f.state (top :: stack) p).popStackType = some (top, f.state stack p) := if_neg hlength
    rw [hpop] at h
    cases h
    exact ⟨stack, rfl, fun _ => rfl⟩

/-- As many types are left on the stack as were expected, and what is below them has been there. -/
lemma popThenPushLoop_frame (h : popThenPushLoop env (f.block p) ts (stack ++ f.below) = some stack') :
    ∃ top, stack' = top ++ stack.drop ts.length ++ f.below ∧ top.length = ts.length ∧
      ((∀ x ∈ ts.zip stack, x.2 = .tvar ∨ x.2 = .val x.1) → top = ts.map .val) := by
  induction ts generalizing stack stack' with
  | nil => exact ⟨[], (Option.some.inj h).symm, rfl, fun _ => rfl⟩
  | cons t ts ih =>
    rw [popThenPushLoop.eq_def] at h
    cases stack with
    | nil =>
      replace h := (if_pos rfl).symm.trans h
      cases p with
      | false => cases h
      | true =>
        obtain ⟨stack₁, hloop, rfl⟩ := map_eq_some_iff.1 ((if_pos rfl).symm.trans h)
        obtain ⟨top, rfl, hlength, htop⟩ := ih hloop
        simp [htop]
    | cons type stack =>
      have hlength : ¬ (type :: stack ++ f.below).length = f.below.length := by
        rw [cons_append, length_cons, List.length_append]
        omega
      replace h := (if_neg hlength).symm.trans h
      cases type with
      | tvar =>
        obtain ⟨stack₁, hloop, rfl⟩ := map_eq_some_iff.1 h
        obtain ⟨top, rfl, hlength, htop⟩ := ih hloop
        refine ⟨.val t :: top, rfl, congrArg Nat.succ hlength, fun hall => ?_⟩
        rw [htop fun x hx => hall x (mem_cons_of_mem _ hx)]
        rfl
      | val observed =>
        change (if env.checkIsSubtypeOf observed t = true then _ else none) = _ at h
        by_cases hcheck : env.checkIsSubtypeOf observed t = true
        · rw [if_pos hcheck] at h
          obtain ⟨stack₁, hloop, rfl⟩ := map_eq_some_iff.1 h
          obtain ⟨top, rfl, hlength, htop⟩ := ih hloop
          refine ⟨.val observed :: top, rfl, congrArg Nat.succ hlength, fun hall => ?_⟩
          rw [htop fun x hx => hall x (mem_cons_of_mem _ hx)]
          rcases hall (t, .val observed) mem_cons_self with h | h
          · cases h
          · exact congrArg (· :: ts.map StackType.val) h
        · rw [if_neg hcheck] at h
          cases h

/-- The operands at the top of the innermost block are recorded as of exactly these types, as far as they
are there and of a known type. -/
def OpIter.Records (types : List ValType) (s : OpIter) : Prop :=
  ∀ block, s.back = some block →
    ∀ x ∈ types.reverse.zip (s.valueStack.take (s.valueStack.length - block.valueStackBase)),
      x.2 = .tvar ∨ x.2 = .val x.1

lemma records_frame : (f.state stack p).Records ts ↔ ∀ x ∈ ts.reverse.zip stack, x.2 = .tvar ∨ x.2 = .val x.1 := by
  have htake : (stack ++ f.below).take ((stack ++ f.below).length - f.below.length) = stack := by
    simp
  constructor
  · intro h x hx
    refine h (f.block p) rfl x ?_
    show x ∈ ts.reverse.zip ((stack ++ f.below).take ((stack ++ f.below).length - f.below.length))
    simp [hx]
  · intro h block hblock x hx
    rw [← Option.some.inj hblock] at hx
    change x ∈ ts.reverse.zip ((stack ++ f.below).take ((stack ++ f.below).length - f.below.length)) at hx
    rw [htake] at hx
    exact h x hx

lemma popThenPushType_frame (h : (f.state stack p).popThenPushType env ts = some s') :
    ∃ top, s' = f.state (top ++ stack.drop ts.length) p ∧ top.length = ts.length ∧
      ((f.state stack p).Records ts → top = ts.reverse.map .val) := by
  obtain ⟨stack', hloop, h⟩ := bind_eq_some_iff.1 h
  obtain ⟨top, rfl, hlength, htop⟩ := popThenPushLoop_frame (f := f) hloop
  rw [length_reverse] at hlength h
  exact ⟨top, (Option.some.inj h).symm, hlength, fun hall => htop (records_frame.1 hall)⟩

/-- Only the part of the stack that is the innermost block's may change. -/
def KeepsOuter (s s' : OpIter) : Prop :=
  ∀ (f : Frame) (stack : List StackType) (p : Bool), s = f.state stack p → ∃ stack' p', s' = f.state stack' p'

lemma respects_keepsOuter : Respects env KeepsOuter where
  refl _ _ stack p h := ⟨stack, p, h⟩
  trans h h' f stack p hs := by
    obtain ⟨stack', p', hs'⟩ := h f stack p hs
    exact h' f stack' p' hs'
  append above _ f stack p hs := by
    refine ⟨above ++ stack, p, ?_⟩
    rw [hs]
    unfold Frame.state
    simp
  pop h f stack p hs := by
    rw [hs] at h
    obtain ⟨stack', hs', _⟩ := popStackType_frame h
    exact ⟨stack', p, hs'⟩
  popThenPush h f stack p hs := by
    rw [hs] at h
    obtain ⟨top, hs', _⟩ := popThenPushType_frame h
    exact ⟨_, p, hs'⟩
  branch _ f stack p hs := by
    refine ⟨[], true, ?_⟩
    rw [hs]
    exact congrArg (fun stack => OpIter.mk stack f.elseParams (f.block true :: f.outer))
      (drop_above stack f.below)

lemma pushControl_frame {kind : LabelKind} {type : BlockType}
    (h : (f.state stack p).pushControl env kind type = some s') :
    ∃ top, s' = (f.inner (stack.drop type.params.length) p kind type f.elseParams).state top false ∧
      top.length = type.params.length ∧
      ((f.state stack p).Records type.params → top = type.params.reverse.map .val) := by
  obtain ⟨s₁, hpop, h⟩ := bind_eq_some_iff.1 h
  obtain ⟨top, rfl, hlength, htop⟩ := popThenPushType_frame hpop
  refine ⟨top, ?_, hlength, htop⟩
  rw [← Option.some.inj h]
  have hbase : (top ++ stack.drop type.params.length ++ f.below).length - type.params.length =
      (stack.drop type.params.length ++ f.below).length := by
    simp only [List.length_append]
    omega
  unfold pushEntry Frame.state Frame.inner Frame.block
  rw [hbase, append_assoc]

lemma checkStackAtEndOfBlock_frame (h : (f.state stack p).checkStackAtEndOfBlock env = some s') :
    ∃ top, s' = f.state top p ∧ top.length = f.type.results.length ∧
      ((f.state stack p).Records f.type.results → top = f.type.results.reverse.map .val) := by
  have hlength : (stack ++ f.below).length - f.below.length = stack.length := by
    simp
  change (if f.type.results.length < (stack ++ f.below).length - f.below.length then none
    else (f.state stack p).popThenPushType env f.type.results) = some s' at h
  rw [hlength] at h
  by_cases hlong : f.type.results.length < stack.length
  · rw [if_pos hlong] at h
    cases h
  · rw [if_neg hlong] at h
    obtain ⟨top, rfl, htop⟩ := popThenPushType_frame h
    rw [drop_eq_nil_of_le (Nat.le_of_not_lt hlong), append_nil]
    exact ⟨top, rfl, htop⟩

lemma end_frame (h : OpIter.step env locals (f.state stack p) .end = some s') :
    ∃ top, s' = ⟨top ++ f.below, f.elseParams.drop (if f.kind = .then then f.type.params.length else 0),
        f.outer⟩ ∧ top.length = f.type.results.length ∧
      (f.kind = .then → f.type.params = f.type.results) ∧
      ((f.state stack p).Records f.type.results → top = f.type.results.reverse.map .val) := by
  obtain ⟨s₁, hend, rfl⟩ := map_eq_some_iff.1 h
  obtain ⟨s₂, hcheck, hend⟩ := bind_eq_some_iff.1 hend
  obtain ⟨top, rfl, hlength, htop⟩ := checkStackAtEndOfBlock_frame hcheck
  change (if f.kind = .then then if f.type.params ≠ f.type.results then none
    else some (dropElseParams f.type.params.length (f.state top p)) else some (f.state top p)) = some s₁ at hend
  by_cases hkind : f.kind = .then
  · rw [if_pos hkind] at hend ⊢
    by_cases hne : f.type.params ≠ f.type.results
    · rw [if_pos hne] at hend
      cases hend
    · rw [if_neg hne] at hend
      rw [← Option.some.inj hend]
      exact ⟨top, rfl, hlength, fun _ => not_not.1 hne, htop⟩
  · rw [if_neg hkind] at hend ⊢
    rw [← Option.some.inj hend]
    exact ⟨top, rfl, hlength, fun h => absurd h hkind, htop⟩

/-- The block that comes after the `then` block. -/
def Frame.elseFrame (f : Frame) : Frame :=
  ⟨f.below, f.elseParams.drop f.type.params.length, .else, f.type, f.outer⟩

lemma else_frame (h : OpIter.step env locals (f.state stack p) .else = some s') :
    f.kind = .then ∧ s' = f.elseFrame.state (f.elseParams.take f.type.params.length) false ∧
      ∃ top, (f.state stack p).checkStackAtEndOfBlock env = some (f.state top p) := by
  change (if f.kind ≠ .then then none
    else ((f.state stack p).checkStackAtEndOfBlock env).bind switchToElse) = some s' at h
  by_cases hkind : f.kind ≠ .then
  · rw [if_pos hkind] at h
    cases h
  · rw [if_neg hkind] at h
    obtain ⟨s₁, hcheck, h⟩ := bind_eq_some_iff.1 h
    obtain ⟨top, rfl, _⟩ := checkStackAtEndOfBlock_frame hcheck
    refine ⟨not_not.1 hkind, ?_, top, hcheck⟩
    rw [← Option.some.inj h]
    show OpIter.mk (f.elseParams.take f.type.params.length ++
      (top ++ f.below).drop ((top ++ f.below).length - f.below.length)) _ _ = _
    rw [drop_above]
    rfl

/-! ## More blocks -/

/-- So many blocks have been opened in a block, and not closed. -/
inductive Within (f : Frame) : ℕ → OpIter → Prop
  | innermost (stack : List StackType) (p : Bool) : Within f 0 (f.state stack p)
  | inner {g : Frame} {depth : ℕ} (saved : List StackType) {elseParams : List StackType}
      (hsaved : g.elseParams = saved ++ elseParams)
      (hlength : saved.length = if g.kind = .then then g.type.params.length else 0)
      (houter : Within f depth ⟨g.below, elseParams, g.outer⟩) (stack : List StackType) (p : Bool) :
      Within f (depth + 1) (g.state stack p)

variable {depth : ℕ} {o : Op}

lemma Within.append (h : Within f depth s) (above : List StackType) :
    Within f depth { s with valueStack := above ++ s.valueStack } := by
  cases h with
  | innermost stack p =>
    have h := Within.innermost (f := f) (above ++ stack) p
    unfold Frame.state at h
    rw [append_assoc] at h
    exact h
  | @inner g _ _ _ hsaved hlength houter stack p =>
    have h := Within.inner _ hsaved hlength houter (above ++ stack) p
    unfold Frame.state at h
    rw [append_assoc] at h
    exact h

/-- The innermost block, whose part of the stack may be any. -/
lemma Within.exists_frame (h : Within f depth s) : ∃ g stack p, s = Frame.state g stack p ∧
    ∀ stack' p', Within f depth (g.state stack' p') := by
  cases h with
  | innermost stack p => exact ⟨f, stack, p, rfl, .innermost⟩
  | @inner g _ _ _ hsaved hlength houter stack p =>
    exact ⟨g, stack, p, rfl, .inner _ hsaved hlength houter⟩

lemma Within.keepsOuter (h : Within f depth s) (hkeeps : KeepsOuter s s') : Within f depth s' := by
  obtain ⟨g, stack, p, rfl, hwithin⟩ := h.exists_frame
  obtain ⟨stack', p', rfl⟩ := hkeeps g stack p rfl
  exact hwithin stack' p'

lemma Within.pushControl {kind : LabelKind} {type : BlockType} (h : Within f depth s)
    (hpush : s.pushControl env kind type = some s') :
    (kind ≠ .then → Within f (depth + 1) s') ∧
      (kind = .then → Within f (depth + 1) (s'.saveElseParams type.params.length)) := by
  obtain ⟨g, stack, p, rfl, hwithin⟩ := h.exists_frame
  obtain ⟨top, rfl, hlength, _⟩ := pushControl_frame hpush
  have houter : Within f depth (g.state (stack.drop type.params.length) p) := hwithin _ p
  constructor
  · intro hkind
    exact .inner [] rfl (if_neg hkind).symm houter top false
  · rintro rfl
    have hsave : saveElseParams type.params.length
        ((g.inner (stack.drop type.params.length) p .then type g.elseParams).state top false) =
        (g.inner (stack.drop type.params.length) p .then type (top ++ g.elseParams)).state top false := by
      have htake : (top ++ (stack.drop type.params.length ++ g.below)).take type.params.length = top := by
        rw [take_left' hlength]
      exact congrArg (fun saved => OpIter.mk _ (saved ++ g.elseParams) _) htake
    rw [hsave]
    exact .inner top rfl (hlength.trans (if_pos rfl).symm) houter top false

lemma Within.step (h : Within f depth s) (hstep : OpIter.step env locals s o = some s') :
    (o.IsPlain → Within f depth s') ∧
    (∀ t, o = .block t ∨ o = .loop t ∨ o = .if t → Within f (depth + 1) s') ∧
    (∀ d, depth = d + 1 → (o = .else → Within f depth s') ∧ (o = .end → Within f d s')) := by
  refine ⟨fun hplain => ?_, fun t ht => ?_, fun d hd => ⟨fun ho => ?_, fun ho => ?_⟩⟩
  · exact h.keepsOuter (respects_keepsOuter.step_plain hplain s s' hstep)
  · rcases ht with rfl | rfl | rfl
    · obtain ⟨type, _, hpush⟩ := bind_eq_some_iff.1 hstep
      exact (h.pushControl hpush).1 fun h => nomatch h
    · obtain ⟨type, _, hpush⟩ := bind_eq_some_iff.1 hstep
      exact (h.pushControl hpush).1 fun h => nomatch h
    · obtain ⟨type, _, hpop⟩ := bind_eq_some_iff.1 hstep
      obtain ⟨s₁, hpop, hpush⟩ := bind_eq_some_iff.1 hpop
      obtain ⟨s₂, hpush, hsave⟩ := bind_eq_some_iff.1 hpush
      rw [← Option.some.inj hsave]
      exact ((h.keepsOuter (keeps_popWithType respects_keepsOuter _ s s₁ hpop)).pushControl hpush).2 rfl
  · subst ho hd
    cases h with
    | @inner g _ saved elseParams hsaved hlength houter stack p =>
      obtain ⟨hkind, rfl, _⟩ := else_frame hstep
      refine Within.inner (g := g.elseFrame) [] ?_ rfl houter _ _
      show g.elseParams.drop g.type.params.length = elseParams
      simp [hkind, hlength, hsaved]
  · subst ho hd
    cases h with
    | @inner g _ saved elseParams hsaved hlength houter stack p =>
      obtain ⟨top, rfl, _⟩ := end_frame hstep
      rw [← hlength, hsaved, drop_left]
      exact houter.append top

/-! ## The end of the block -/

lemma skip_plain {orElse : Bool} (hplain : o.IsPlain) (ops : List Op) :
    skip orElse depth (o :: ops) = skip orElse depth ops := by
  cases o <;> cases depth <;> first | rfl | exact hplain.elim

/-- Where `skip` stops in what is left of a body that is accepted. -/
def Stops (env : ModuleEnvironment) (locals : List ValType) (orElse : Bool) (f : Frame) (s : OpIter)
    (ops found : List Op) : Prop :=
  ∃ pre o rest g stack p, found = o :: rest ∧ ops = pre ++ o :: rest ∧
    run env locals pre s = some (Frame.state g stack p) ∧
    ((o = .end ∧ (g = f ∨ orElse = false ∧ f.kind = .then ∧ g = f.elseFrame)) ∨ (orElse = true ∧ o = .else ∧ g = f))

lemma Stops.cons {orElse : Bool} {ops found : List Op} (h : Stops env locals orElse f s' ops found)
    (hs : s.controlStack ≠ []) (hstep : OpIter.step env locals s o = some s') :
    Stops env locals orElse f s (o :: ops) found := by
  obtain ⟨pre, o', rest, g, stack, p, hfound, rfl, hrun, h⟩ := h
  refine ⟨o :: pre, o', rest, g, stack, p, hfound, rfl, ?_, h⟩
  rw [run_cons_of_ne_nil hs, hstep]
  exact hrun

/-- The end that `skip` finds is that of the block, or of the `else` that follows. -/
lemma skip_spec (orElse : Bool) {ops : List Op} (h : Within f depth s)
    (hrun : run env locals ops s = some s') (hs' : s'.controlStack = []) :
    Stops env locals orElse f s ops (skip orElse depth ops) := by
  induction ops generalizing f depth s with
  | nil =>
    obtain ⟨g, stack, p, rfl, _⟩ := h.exists_frame
    rw [← Option.some.inj hrun] at hs'
    cases hs'
  | cons o ops ih =>
    have hs : s.controlStack ≠ [] := by
      obtain ⟨g, stack, p, rfl, _⟩ := h.exists_frame
      exact cons_ne_nil _ _
    rw [run_cons_of_ne_nil hs] at hrun
    obtain ⟨s₁, hstep, hrun₁⟩ := bind_eq_some_iff.1 hrun
    obtain ⟨hplain, hblock, hclose⟩ := h.step hstep
    by_cases ho : o.IsPlain
    · rw [skip_plain ho]
      exact (ih (hplain ho) hrun₁).cons hs hstep
    · cases o with
      | block t => exact (ih (hblock t (.inl rfl)) hrun₁).cons hs hstep
      | loop t => exact (ih (hblock t (.inr (.inl rfl))) hrun₁).cons hs hstep
      | «if» t => exact (ih (hblock t (.inr (.inr rfl))) hrun₁).cons hs hstep
      | «else» =>
        cases depth with
        | succ d => exact (ih ((hclose d rfl).1 rfl) hrun₁).cons hs hstep
        | zero =>
          cases h with
          | innermost stack p =>
            cases orElse with
            | true => exact ⟨[], .else, ops, f, stack, p, rfl, rfl, rfl, .inr ⟨rfl, rfl, rfl⟩⟩
            | false =>
              obtain ⟨hkind, rfl, _⟩ := else_frame hstep
              have hstops := (ih (.innermost _ _) hrun₁).cons hs hstep
              obtain ⟨pre, o', rest, g, stack', p', hfound, hops, hrun', h⟩ := hstops
              refine ⟨pre, o', rest, g, stack', p', hfound, hops, hrun', ?_⟩
              rcases h with ⟨rfl, rfl | ⟨_, hthen, _⟩⟩ | ⟨h, _⟩
              · simp [hkind]
              · cases hthen
              · cases h
      | «end» =>
        cases depth with
        | succ d => exact (ih ((hclose d rfl).2 rfl) hrun₁).cons hs hstep
        | zero =>
          cases h with
          | innermost stack p => exact ⟨[], .end, ops, f, stack, p, rfl, rfl, rfl, .inl ⟨rfl, .inl rfl⟩⟩
      | _ => exact absurd trivial ho

end SpiderMonkey.Wasm
