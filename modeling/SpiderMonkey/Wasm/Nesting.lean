import SpiderMonkey.Wasm.Sequences

/-!
# Blocks are nested

Whatever the types are, the operations that are accepted up to the end of a block are those of a sequence
of instructions.
-/

namespace SpiderMonkey.Wasm

open List Option

namespace OpIter

open Option

variable {env : ModuleEnvironment} {locals : List ValType} {s s' : OpIter}
  {op op' : OpIter → Option OpIter}

/-! ## Operations on the operands -/

/-- A relation that holds between a state and what the primitive operations on its operands make of it. -/
structure Respects (env : ModuleEnvironment) (R : OpIter → OpIter → Prop) : Prop where
  refl (s : OpIter) : R s s
  trans {s s' s'' : OpIter} : R s s' → R s' s'' → R s s''
  append (stack : List StackType) (s : OpIter) : R s { s with valueStack := stack ++ s.valueStack }
  pop {s s' : OpIter} {type : StackType} : s.popStackType = some (type, s') → R s s'
  popThenPush {s s' : OpIter} {ts : List ValType} : s.popThenPushType env ts = some s' → R s s'
  branch (s : OpIter) : R s s.afterUnconditionalBranch

def Keeps (R : OpIter → OpIter → Prop) (op : OpIter → Option OpIter) : Prop :=
  ∀ s s', op s = some s' → R s s'

variable {R : OpIter → OpIter → Prop} (hR : Respects env R)

lemma Keeps.some {g : OpIter → OpIter} (hg : ∀ s, R s (g s)) : Keeps R fun s => some (g s) := by
  intro s s' heq
  rw [← some.inj heq]
  exact hg s

lemma Keeps.read {α : Type} {o : Option α} {op : α → OpIter → Option OpIter}
    (h : ∀ a, Keeps R (op a)) : Keeps R fun s => o.bind fun a => op a s := by
  intro s s' heq
  obtain ⟨a, _, hop⟩ := bind_eq_some_iff.1 heq
  exact h a s s' hop

lemma Keeps.ite {c : Prop} [Decidable c] (h : Keeps R op) : Keeps R fun s => if c then op s else none := by
  intro s s' heq
  change (if c then op s else none) = Option.some s' at heq
  by_cases hc : c
  · rw [if_pos hc] at heq
    exact h s s' heq
  · rw [if_neg hc] at heq
    cases heq

include hR

lemma Keeps.bind (h : Keeps R op) (h' : Keeps R op') : Keeps R fun s => (op s).bind op' := by
  intro s s' heq
  obtain ⟨s₁, hs₁, hs'⟩ := bind_eq_some_iff.1 heq
  exact hR.trans (h s s₁ hs₁) (h' s₁ s' hs')

lemma keeps_push (t : ValType) : Keeps R fun s => some (s.push t) := Keeps.some (hR.append [.val t])

lemma keeps_pushTypes (ts : List ValType) : Keeps R fun s => some (s.pushTypes ts) := Keeps.some (hR.append _)

lemma keeps_popStackType {k : StackType → OpIter → Option OpIter} (hk : ∀ type, Keeps R (k type)) :
    Keeps R fun s => s.popStackType.bind fun x => k x.1 x.2 := by
  intro s s' heq
  obtain ⟨⟨type, s₁⟩, hpop, hs'⟩ := bind_eq_some_iff.1 heq
  exact hR.trans (hR.pop hpop) (hk type s₁ s' hs')

lemma keeps_popWithType (t : ValType) : Keeps R (popWithType env t) :=
  keeps_popStackType hR fun type => Keeps.ite (c := checkStackType env type t = true)
    (Keeps.some hR.refl)

lemma keeps_popTypes (ts : List ValType) : Keeps R (popTypes env ts) := by
  have hreversed : ∀ ts : List ValType, Keeps R (popReversed env ts) := by
    intro ts
    induction ts with
    | nil => exact Keeps.some hR.refl
    | cons t ts ih => exact (keeps_popWithType hR t).bind hR ih
  exact hreversed ts.reverse

lemma keeps_branch (relativeDepth : ℕ) : Keeps R (checkBranchValue env relativeDepth) := by
  intro s s' heq
  obtain ⟨block, _, heq⟩ := bind_eq_some_iff.1 heq
  exact hR.popThenPush heq

lemma keeps_checkBrTable (depths : List ℕ) (prevType : Option (List ValType)) :
    Keeps R fun s => s.checkBrTable env depths prevType := by
  induction depths generalizing prevType with
  | nil => exact Keeps.some hR.refl
  | cons depth depths ih =>
    intro s s' heq
    obtain ⟨⟨type, s₁⟩, hentry, hs'⟩ := bind_eq_some_iff.1 heq
    refine hR.trans ?_ (ih (Option.some type) s₁ s' hs')
    obtain ⟨block, _, hentry⟩ := bind_eq_some_iff.1 hentry
    by_cases hlength : prevType.any
        (fun prevType => decide (prevType.length ≠ block.branchTargetType.length)) = true
    · rw [if_pos hlength] at hentry
      cases hentry
    · rw [if_neg hlength] at hentry
      obtain ⟨s₂, hpop, heq⟩ := bind_eq_some_iff.1 hentry
      rw [← (Prod.mk.inj (Option.some.inj heq)).2]
      exact hR.popThenPush hpop

lemma keeps_afterUnconditionalBranch : Keeps R fun s => some s.afterUnconditionalBranch := Keeps.some hR.branch

lemma keeps_readSelectOperands : Keeps R readSelectOperands := by
  intro s s' heq
  obtain ⟨⟨falseType, s₁⟩, hfalse, heq⟩ := bind_eq_some_iff.1 heq
  obtain ⟨⟨trueType, s₂⟩, htrue, heq⟩ := bind_eq_some_iff.1 heq
  obtain ⟨type, _, heq⟩ := bind_eq_some_iff.1 heq
  rw [← some.inj heq]
  exact hR.trans (hR.pop hfalse) (hR.trans (hR.pop htrue) (hR.append [type] s₂))

lemma keeps_readConversion (t t' : NumType) : Keeps R (readConversion env t t') :=
  (keeps_popWithType hR _).bind hR (keeps_push hR _)

lemma keeps_popPush (ts : List ValType) (t : ValType) :
    Keeps R fun s => (popTypes env ts s).bind fun s => some (s.push t) :=
  (keeps_popTypes hR ts).bind hR (keeps_push hR t)

lemma keeps_popWithRefType : Keeps R popWithRefType := by
  intro s s' heq
  obtain ⟨⟨type, s₁⟩, hpop, heq⟩ := bind_eq_some_iff.1 heq
  refine hR.trans (hR.pop hpop) ?_
  cases type with
  | tvar =>
    rw [← Option.some.inj heq]
    exact hR.refl s₁
  | val t => exact Keeps.ite (c := t.isReference = true) (Keeps.some hR.refl) s₁ s' heq

open Keeps

/-- The operations that are no blocks do nothing but the primitive ones. -/
lemma Respects.step_plain {o : Op} (hplain : o.IsPlain) : Keeps R fun s => OpIter.step env locals s o := by
  cases o with
  | block t => exact hplain.elim
  | loop t => exact hplain.elim
  | «if» t => exact hplain.elim
  | «else» => exact hplain.elim
  | «end» => exact hplain.elim
  | br l => exact (keeps_branch hR l).bind hR (keeps_afterUnconditionalBranch hR)
  | brIf l => exact (keeps_popWithType hR _).bind hR (keeps_branch hR l)
  | brTable ls l =>
    intro s s' heq
    change (if ls.length > MaxBrTableElems then none else _) = _ at heq
    by_cases hlength : ls.length > MaxBrTableElems
    · rw [if_pos hlength] at heq
      cases heq
    · rw [if_neg hlength] at heq
      exact ((keeps_popWithType hR _).bind hR ((keeps_checkBrTable hR _ none).bind hR
        (keeps_afterUnconditionalBranch hR))) s s' heq
  | «return» =>
    intro s s' heq
    obtain ⟨body, _, heq⟩ := bind_eq_some_iff.1 heq
    exact ((keeps_popTypes hR _).bind hR (keeps_afterUnconditionalBranch hR)) s s' heq
  | unreachable => exact keeps_afterUnconditionalBranch hR
  | drop => exact keeps_popStackType hR fun _ => Keeps.some hR.refl
  | select => exact (keeps_popWithType hR _).bind hR (keeps_readSelectOperands hR)
  | selectTyped length t => exact Keeps.ite (keeps_popPush hR _ _)
  | getLocal id => exact read fun t => keeps_push hR t
  | setLocal id => exact read fun t => keeps_popWithType hR t
  | teeLocal id => exact read fun t s s' h => hR.popThenPush h
  | call funcIndex =>
    exact read fun _ => (keeps_popTypes hR _).bind hR (keeps_pushTypes hR _)
  | const t => exact keeps_push hR _
  | unary t => exact keeps_readConversion hR t t
  | binary t => exact keeps_popPush hR _ _
  | comparison t => exact keeps_popPush hR _ _
  | conversion t t' => exact keeps_readConversion hR t t'
  | refNull t => exact Keeps.ite (keeps_push hR t)
  | refIsNull => exact (keeps_popWithRefType hR).bind hR (keeps_push hR _)
  | structNew i => exact read fun _ => keeps_popPush hR _ _
  | structGet i j =>
    exact read fun _ => read fun _ => (keeps_popWithType hR _).bind hR (keeps_push hR _)
  | structSet i j =>
    exact read fun _ => read fun _ =>
      (keeps_popWithType hR _).bind hR (Keeps.ite (keeps_popWithType hR _))
  | structNarrow t t' => exact Keeps.ite ((keeps_popWithType hR _).bind hR (keeps_push hR t'))

omit hR

/-! ## What an operation does to the open blocks -/

/-- The kinds of the open blocks, the innermost first. -/
def kinds (s : OpIter) : List LabelKind := s.controlStack.map Control.kind

lemma popStackType_kinds {type : StackType} (h : s.popStackType = some (type, s')) : s'.kinds = s.kinds := by
  obtain ⟨block, _, h⟩ := bind_eq_some_iff.1 h
  by_cases hbase : s.valueStack.length = block.valueStackBase
  · rw [if_pos hbase] at h
    by_cases hpoly : block.polymorphicBase = true
    · rw [if_pos hpoly] at h
      rw [(Prod.mk.inj (some.inj h)).2]
    · rw [if_neg hpoly] at h
      cases h
  · rw [if_neg hbase] at h
    cases hstack : s.valueStack with
    | nil =>
      simp [hstack] at h
    | cons top rest =>
      rw [hstack] at h
      rw [← (Prod.mk.inj (some.inj h)).2]
      rfl

lemma popThenPushType_kinds {ts : List ValType} (h : s.popThenPushType env ts = some s') : s'.kinds = s.kinds := by
  obtain ⟨block, _, h⟩ := bind_eq_some_iff.1 h
  obtain ⟨stack, _, h⟩ := bind_eq_some_iff.1 h
  rw [← some.inj h]
  rfl

lemma afterUnconditionalBranch_kinds (s : OpIter) : s.afterUnconditionalBranch.kinds = s.kinds := by
  unfold afterUnconditionalBranch
  cases hcontrol : s.controlStack with
  | nil => rfl
  | cons block outer =>
    unfold kinds
    rw [hcontrol]
    rfl

lemma respects_kinds : Respects env fun s s' => s'.kinds = s.kinds where
  refl _ := rfl
  trans h h' := h'.trans h
  append _ _ := rfl
  pop := popStackType_kinds
  popThenPush := popThenPushType_kinds
  branch := afterUnconditionalBranch_kinds

lemma pushControl_kinds {kind : LabelKind} {type : BlockType}
    (h : s.pushControl env kind type = some s') : s'.kinds = kind :: s.kinds := by
  obtain ⟨s₁, hpop, heq⟩ := bind_eq_some_iff.1 h
  rw [← some.inj heq, ← popThenPushType_kinds hpop]
  rfl

lemma checkStackAtEndOfBlock_kinds (h : s.checkStackAtEndOfBlock env = some s') : s'.kinds = s.kinds := by
  obtain ⟨block, _, h⟩ := bind_eq_some_iff.1 h
  by_cases hlong : block.type.results.length < s.valueStack.length - block.valueStackBase
  · rw [if_pos hlong] at h
    cases h
  · rw [if_neg hlong] at h
    exact popThenPushType_kinds h

lemma readEnd_kinds (h : s.readEnd env = some s') : s'.kinds = s.kinds := by
  obtain ⟨s₁, hcheck, h⟩ := bind_eq_some_iff.1 h
  obtain ⟨block, _, h⟩ := bind_eq_some_iff.1 h
  rw [← checkStackAtEndOfBlock_kinds hcheck]
  by_cases hkind : block.kind = .then
  · rw [if_pos hkind] at h
    by_cases htype : block.type.params ≠ block.type.results
    · rw [if_pos htype] at h
      cases h
    · rw [if_neg htype] at h
      rw [← some.inj h]
      rfl
  · rw [if_neg hkind] at h
    rw [some.inj h]

lemma readElse_kinds (h : s.readElse env = some s') :
    ∃ outer, s.kinds = .then :: outer ∧ s'.kinds = .else :: outer := by
  obtain ⟨block, hback, h⟩ := bind_eq_some_iff.1 h
  by_cases hkind : block.kind ≠ .then
  · rw [if_pos hkind] at h
    cases h
  · rw [if_neg hkind] at h
    obtain ⟨s₁, hcheck, h⟩ := bind_eq_some_iff.1 h
    have hkinds := checkStackAtEndOfBlock_kinds hcheck
    obtain ⟨outer, hs⟩ : ∃ outer, s.controlStack = block :: outer := head?_eq_some_iff.1 hback
    have hthen : s.kinds = .then :: outer.map Control.kind := by
      unfold kinds
      rw [hs, map_cons, not_not.1 hkind]
    refine ⟨_, hthen, ?_⟩
    rw [hthen] at hkinds
    unfold kinds at hkinds
    obtain ⟨block', outer', hs₁, _, houter⟩ := map_eq_cons_iff.1 hkinds
    unfold switchToElse at h
    rw [hs₁] at h
    rw [← some.inj h, ← houter]
    rfl

inductive KindsStep : Op → List LabelKind → List LabelKind → Prop
  | plain {op : Op} (hop : op.IsPlain) (ks : List LabelKind) : KindsStep op ks ks
  | block (t : BlockTypeCode) (ks : List LabelKind) : KindsStep (.block t) ks (.block :: ks)
  | loop (t : BlockTypeCode) (ks : List LabelKind) : KindsStep (.loop t) ks (.loop :: ks)
  | if (t : BlockTypeCode) (ks : List LabelKind) : KindsStep (.if t) ks (.then :: ks)
  | else (ks : List LabelKind) : KindsStep .else (.then :: ks) (.else :: ks)
  | end (k : LabelKind) (ks : List LabelKind) : KindsStep .end (k :: ks) ks

lemma step_kinds {o : Op} (hs : s.controlStack ≠ []) (h : s.step env locals o = some s') :
    KindsStep o s.kinds s'.kinds := by
  by_cases hplain : o.IsPlain
  · rw [respects_kinds.step_plain hplain s s' h]
    exact .plain hplain _
  · cases o with
    | block t =>
      obtain ⟨type, _, h⟩ := bind_eq_some_iff.1 h
      rw [pushControl_kinds h]
      exact .block t _
    | loop t =>
      obtain ⟨type, _, h⟩ := bind_eq_some_iff.1 h
      rw [pushControl_kinds h]
      exact .loop t _
    | «if» t =>
      obtain ⟨type, _, h⟩ := bind_eq_some_iff.1 h
      obtain ⟨s₁, hpop, h⟩ := bind_eq_some_iff.1 h
      obtain ⟨s₂, hpush, h⟩ := bind_eq_some_iff.1 h
      rw [← some.inj h, ← keeps_popWithType respects_kinds _ s s₁ hpop]
      have hkinds : (s₂.saveElseParams type.params.length).kinds = s₂.kinds := rfl
      rw [hkinds, pushControl_kinds hpush]
      exact .if t _
    | «else» =>
      obtain ⟨outer, hthen, helse⟩ := readElse_kinds h
      rw [hthen, helse]
      exact .else outer
    | «end» =>
      obtain ⟨s₁, hend, rfl⟩ := map_eq_some_iff.1 h
      have hkinds : s₁.popEnd.kinds = s.kinds.tail := by
        rw [← readEnd_kinds hend]
        exact map_tail
      rw [hkinds]
      unfold kinds
      cases hcontrol : s.controlStack with
      | nil => exact absurd hcontrol hs
      | cons block outer => exact .end _ _
    | _ => exact absurd trivial hplain

/-! ## Sequences of accepted operations -/

/-- The operations up to the one that leaves the innermost block, or its `then` part, are those of a
sequence.  The induction is on the number of operations, as the blocks in it come one after the other. -/
lemma exists_sequence {ops : List Op} (hrun : run env locals ops s = some s') {k : LabelKind}
    {ks : List LabelKind} (hs : s.kinds = k :: ks) (hs' : s'.kinds.length ≤ ks.length) :
    ∃ (e : Expr) (ops' : List Op) (s₁ : OpIter), e.IsWellFormed ∧ run env locals ops' s₁ = some s' ∧
      ((ops = e.ops ++ .end :: ops' ∧ s₁.kinds = ks) ∨
        (k = .then ∧ ops = e.ops ++ .else :: ops' ∧ s₁.kinds = .else :: ks)) := by
  induction hn : ops.length using Nat.strong_induction_on generalizing ops s k ks with
  | _ n ih =>
    subst hn
    cases ops with
    | nil =>
      rw [← some.inj hrun, hs] at hs'
      exact absurd hs' (Nat.not_succ_le_self _)
    | cons op ops =>
      have hcontrol : s.controlStack ≠ [] := by
        intro hempty
        unfold kinds at hs
        simp [hempty] at hs
      rw [run_cons_of_ne_nil hcontrol] at hrun
      obtain ⟨s₁, hstep, hrun₁⟩ := bind_eq_some_iff.1 hrun
      have hkinds := step_kinds hcontrol hstep
      rw [hs] at hkinds
      generalize hs₁ : s₁.kinds = ks₁ at hkinds
      have hlong : s'.kinds.length ≤ (k :: ks).length := Nat.le_succ_of_le hs'
      -- the instructions after a block, of which `ops₂` are the operations
      have hrest : ∀ {ops₂ : List Op} {s₂ : OpIter} {m : ℕ}, ops.length = ops₂.length + m →
          run env locals ops₂ s₂ = some s' → s₂.kinds = k :: ks →
          ∃ (e : Expr) (ops' : List Op) (s₃ : OpIter), e.IsWellFormed ∧ run env locals ops' s₃ = some s' ∧
            ((ops₂ = e.ops ++ .end :: ops' ∧ s₃.kinds = ks) ∨
              (k = .then ∧ ops₂ = e.ops ++ .else :: ops' ∧ s₃.kinds = .else :: ks)) := by
        intro ops₂ s₂ m hm hrun₂ hs₂
        refine ih _ ?_ hrun₂ hs₂ hs' rfl
        rw [length_cons]
        omega
      cases hkinds with
      | plain hop =>
        obtain ⟨e, ops', s₂, hwf, hrun', h⟩ := ih _ (Nat.lt_succ_self _) hrun₁ hs₁ hs' rfl
        refine ⟨.plain op e, ops', s₂, ⟨hop, hwf⟩, hrun', ?_⟩
        rcases h with ⟨rfl, hs₂⟩ | ⟨hk, rfl, hs₂⟩
        · exact .inl ⟨rfl, hs₂⟩
        · exact .inr ⟨hk, rfl, hs₂⟩
      | block t =>
        obtain ⟨body, ops₂, s₂, hbody, hrun₂, h⟩ := ih _ (Nat.lt_succ_self _) hrun₁ hs₁ hlong rfl
        rcases h with ⟨rfl, hs₂⟩ | ⟨hk, _⟩
        · have hlen : (body.ops ++ .end :: ops₂).length = ops₂.length + (body.ops.length + 1) := by
            rw [List.length_append, length_cons]
            omega
          obtain ⟨e, ops', s₃, hwf, hrun', h⟩ := hrest hlen hrun₂ hs₂
          refine ⟨.block t body e, ops', s₃, ⟨hbody, hwf⟩, hrun', ?_⟩
          rw [Expr.ops, cons_append, append_assoc, cons_append, cons_append, append_assoc, cons_append]
          simp [h]
        · cases hk
      | loop t =>
        obtain ⟨body, ops₂, s₂, hbody, hrun₂, h⟩ := ih _ (Nat.lt_succ_self _) hrun₁ hs₁ hlong rfl
        rcases h with ⟨rfl, hs₂⟩ | ⟨hk, _⟩
        · have hlen : (body.ops ++ .end :: ops₂).length = ops₂.length + (body.ops.length + 1) := by
            rw [List.length_append, length_cons]
            omega
          obtain ⟨e, ops', s₃, hwf, hrun', h⟩ := hrest hlen hrun₂ hs₂
          refine ⟨.loop t body e, ops', s₃, ⟨hbody, hwf⟩, hrun', ?_⟩
          rw [Expr.ops, cons_append, append_assoc, cons_append, cons_append, append_assoc, cons_append]
          simp [h]
        · cases hk
      | «if» t =>
        obtain ⟨thenBody, ops₂, s₂, hthen, hrun₂, h⟩ := ih _ (Nat.lt_succ_self _) hrun₁ hs₁ hlong rfl
        rcases h with ⟨rfl, hs₂⟩ | ⟨_, rfl, hs₂⟩
        · have hlen : (thenBody.ops ++ .end :: ops₂).length = ops₂.length + (thenBody.ops.length + 1) := by
            rw [List.length_append, length_cons]
            omega
          obtain ⟨e, ops', s₃, hwf, hrun', h⟩ := hrest hlen hrun₂ hs₂
          refine ⟨.ifThen t thenBody e, ops', s₃, ⟨hthen, hwf⟩, hrun', ?_⟩
          rw [Expr.ops, cons_append, append_assoc, cons_append, cons_append, append_assoc, cons_append]
          simp [h]
        · have hlen : (thenBody.ops ++ .else :: ops₂).length = ops₂.length + (thenBody.ops.length + 1) := by
            rw [List.length_append, length_cons]
            omega
          obtain ⟨elseBody, ops₃, s₃, helse, hrun₃, h⟩ :=
            ih ops₂.length (by rw [length_cons]; omega) hrun₂ hs₂ hlong rfl
          rcases h with ⟨rfl, hs₃⟩ | ⟨hk, _⟩
          · have hlen' : (thenBody.ops ++ .else :: (elseBody.ops ++ .end :: ops₃)).length =
                ops₃.length + (thenBody.ops.length + elseBody.ops.length + 2) := by
              rw [List.length_append, length_cons, List.length_append, length_cons]
              omega
            obtain ⟨e, ops', s₄, hwf, hrun', h⟩ := hrest hlen' hrun₃ hs₃
            refine ⟨.ifElse t thenBody elseBody e, ops', s₄, ⟨hthen, helse, hwf⟩, hrun', ?_⟩
            simp only [Expr.ops, cons_append, append_assoc]
            simp [h]
          · cases hk
      | «else» => exact ⟨.nil, ops, s₁, trivial, hrun₁, .inr ⟨rfl, rfl, hs₁⟩⟩
      | «end» => exact ⟨.nil, ops, s₁, trivial, hrun₁, .inl ⟨rfl, hs₁⟩⟩

/-- An accepted body is a sequence and the end of the function. -/
theorem exists_expr {results : List ValType} {body : List Op} (h : Accepts env locals results body) :
    ∃ e : Expr, e.IsWellFormed ∧ body = e.ops ++ [Op.end] := by
  obtain ⟨s, hrun, hs⟩ := h
  have hempty : s.kinds = [] := congrArg (List.map Control.kind) hs
  obtain ⟨e, ops', s₁, hwf, hrun', h⟩ :=
    exists_sequence hrun (show (start results).kinds = [.body] from rfl) (by rw [hempty])
  rcases h with ⟨rfl, hs₁⟩ | ⟨hk, _⟩
  · cases ops' with
    | nil => exact ⟨e, hwf, rfl⟩
    | cons op ops =>
      have hclosed : s₁.controlStack = [] := map_eq_nil_iff.1 hs₁
      have hnone : run env locals (op :: ops) s₁ = none := if_pos hclosed
      simp [hnone] at hrun'
  · cases hk

end OpIter

end SpiderMonkey.Wasm
