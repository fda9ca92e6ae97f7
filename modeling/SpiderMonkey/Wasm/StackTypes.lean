import SpiderMonkey.Wasm.Typing

/-!
# What the value stack of `OpIter` says

The part of the value stack that is the innermost block's stands for the lists of types that the operands
can have.  Each operation takes exactly those lists to others that its type does.
-/

namespace SpiderMonkey.Wasm

open List StackType

/-! ## Stacks and lists of types -/

abbrev StackType.num (n : NumType) : StackType := .val (.num n)

def StackType.Allows (type : StackType) (n : NumType) : Prop := type = .tvar ∨ type = .num n

/-- The part of a stack that belongs to a block, whose base may be polymorphic, and a list of types with
that of the topmost operand first. -/
def Matches : List StackType → Bool → List NumType → Prop
  | [], p, ns => p = true ∨ ns = []
  | type :: stack, p, n :: ns => type.Allows n ∧ Matches stack p ns
  | _ :: _, _, [] => False

variable {stack : List StackType} {p : Bool} {ns ns' : List NumType} {n : NumType}

lemma matches_cons {type : StackType} : Matches (type :: stack) p ns ↔
    ∃ n below, ns = n :: below ∧ type.Allows n ∧ Matches stack p below := by
  cases ns with
  | nil => exact ⟨False.elim, fun ⟨_, _, h, _⟩ => nomatch h⟩
  | cons n ns =>
    refine ⟨fun h => ⟨n, ns, rfl, h⟩, fun ⟨_, _, heq, h⟩ => ?_⟩
    rw [(List.cons.inj heq).1, (List.cons.inj heq).2]
    exact h

lemma allows_num {n' : NumType} : (num n).Allows n' ↔ n' = n := by
  refine ⟨fun h => ?_, fun h => .inr (congrArg _ h.symm)⟩
  rcases h with h | h
  · cases h
  · exact (ValType.num.inj (val.inj h)).symm

lemma matches_num_cons : Matches (.num n :: stack) p ns ↔ ∃ below, ns = n :: below ∧ Matches stack p below := by
  rw [matches_cons]
  constructor
  · rintro ⟨n', below, rfl, hn, h⟩
    exact ⟨below, by rw [allows_num.1 hn], h⟩
  · rintro ⟨below, rfl, h⟩
    exact ⟨n, below, rfl, .inr rfl, h⟩

lemma matches_map_append : Matches (ns'.map num ++ stack) p ns ↔
    ∃ below, ns = ns' ++ below ∧ Matches stack p below := by
  induction ns' generalizing ns with
  | nil =>
    simp
  | cons n ns' ih =>
    rw [map_cons, cons_append, matches_num_cons]
    constructor
    · rintro ⟨tail, rfl, h⟩
      obtain ⟨below, rfl, hbelow⟩ := ih.1 h
      simp [hbelow]
    · rintro ⟨below, rfl, h⟩
      exact ⟨ns' ++ below, rfl, ih.2 ⟨below, rfl, h⟩⟩

/-- Does the stack stand for some list? -/
def Possible (stack : List StackType) (p : Bool) : Prop := ∃ ns, Matches stack p ns

lemma possible_nil : Possible [] p := ⟨[], .inr rfl⟩

lemma possible_cons {type : StackType} : Possible (type :: stack) p ↔ (∃ n, type.Allows n) ∧ Possible stack p := by
  constructor
  · rintro ⟨ns, h⟩
    obtain ⟨n, below, _, hn, hbelow⟩ := matches_cons.1 h
    exact ⟨⟨n, hn⟩, below, hbelow⟩
  · rintro ⟨⟨n, hn⟩, below, hbelow⟩
    exact ⟨n :: below, hn, hbelow⟩

lemma possible_map_append (h : Possible stack p) : Possible (ns.map num ++ stack) p := by
  obtain ⟨below, h⟩ := h
  exact ⟨ns ++ below, matches_map_append.2 ⟨below, rfl, h⟩⟩

/-! ## The innermost block -/

/-- All of a state but the part of the value stack that is the innermost block's, and whether its base is
polymorphic. -/
structure Frame where
  below : List StackType
  elseParams : List StackType
  kind : LabelKind
  type : BlockType
  outer : List Control

def Frame.block (f : Frame) (p : Bool) : Control := ⟨f.kind, f.type, f.below.length, p⟩

def Frame.state (f : Frame) (stack : List StackType) (p : Bool) : OpIter :=
  ⟨stack ++ f.below, f.elseParams, f.block p :: f.outer⟩

/-- The operation takes the lists that the stack stands for to exactly those that `R` relates to them,
and fails if there is none. -/
def Exact (f : Frame) (op : OpIter → Option OpIter) (R : List NumType → List NumType → Prop) : Prop :=
  ∀ stack p, Possible stack p → (∃ stack' p', op (f.state stack p) = some (f.state stack' p') ∧ Possible stack' p' ∧
      ∀ ns', Matches stack' p' ns' ↔ ∃ ns, Matches stack p ns ∧ R ns ns') ∨
    (op (f.state stack p) = none ∧ ∀ ns ns', Matches stack p ns → ¬ R ns ns')

variable {f : Frame} {op op' : OpIter → Option OpIter} {R R' : List NumType → List NumType → Prop}

lemma Exact.congr (h : Exact f op R) (hR : ∀ ns ns', R ns ns' ↔ R' ns ns') : Exact f op R' := by
  have heq : R = R' := funext fun ns => funext fun ns' => propext (hR ns ns')
  exact heq ▸ h

lemma Exact.bind (h : Exact f op R) (h' : Exact f op' R') :
    Exact f (fun s => (op s).bind op') fun ns ns'' => ∃ ns', R ns ns' ∧ R' ns' ns'' := by
  intro stack p hpossible
  rcases h stack p hpossible with ⟨stack', p', hop, hpossible', hmatches⟩ | ⟨hop, hnone⟩
  · rcases h' stack' p' hpossible' with ⟨stack'', p'', hop', hpossible'', hmatches'⟩ | ⟨hop', hnone'⟩
    · refine .inl ⟨stack'', p'', (congrArg (Option.bind · op') hop).trans hop', hpossible'', fun ns'' => ?_⟩
      rw [hmatches']
      constructor
      · rintro ⟨ns', hns', hR'⟩
        obtain ⟨ns, hns, hR⟩ := (hmatches ns').1 hns'
        exact ⟨ns, hns, ns', hR, hR'⟩
      · rintro ⟨ns, hns, ns', hR, hR'⟩
        exact ⟨ns', (hmatches ns').2 ⟨ns, hns, hR⟩, hR'⟩
    · refine .inr ⟨(congrArg (Option.bind · op') hop).trans hop', fun ns ns'' hns ⟨ns', hR, hR'⟩ => ?_⟩
      exact hnone' ns' ns'' ((hmatches ns').2 ⟨ns, hns, hR⟩) hR'
  · refine .inr ⟨congrArg (Option.bind · op') hop, fun ns ns'' hns ⟨ns', hR, _⟩ => ?_⟩
    exact hnone ns ns' hns hR

lemma exact_fail (hop : ∀ s, op s = none) (hR : ∀ ns ns', ¬ R ns ns') : Exact f op R :=
  fun _ _ _ => .inr ⟨hop _, fun ns ns' _ => hR ns ns'⟩

lemma exact_some : Exact f some fun ns ns' => ns = ns' :=
  fun stack p hpossible => .inl ⟨stack, p, rfl, hpossible, fun ns' =>
    ⟨fun h => ⟨ns', h, rfl⟩, fun ⟨_, h, heq⟩ => heq ▸ h⟩⟩

/-! ## Pushing and popping -/

open OpIter

lemma exact_pushTypes (pushed : List NumType) : Exact f (fun s => some (s.pushTypes (pushed.map .num))) fun ns ns' =>
      ns' = pushed.reverse ++ ns := by
  refine fun stack p hpossible => .inl ⟨pushed.reverse.map num ++ stack, p, ?_,
    possible_map_append hpossible, fun ns' => ?_⟩
  · unfold pushTypes Frame.state
    simp
  · rw [matches_map_append]
    exact ⟨fun ⟨ns, heq, h⟩ => ⟨ns, h, heq⟩, fun ⟨ns, h, heq⟩ => ⟨ns, heq, h⟩⟩

/-- A type is popped that the topmost operand can be of. -/
lemma popStackType_spec (hpossible : Possible stack p) :
    (∃ type rest, (f.state stack p).popStackType = some (type, f.state rest p) ∧ Possible rest p ∧
      (∃ n, type.Allows n) ∧
      ∀ n below, Matches stack p (n :: below) ↔ type.Allows n ∧ Matches rest p below) ∨
    ((f.state stack p).popStackType = none ∧ ∀ n below, ¬ Matches stack p (n :: below)) := by
  cases stack with
  | nil =>
    have hpop : (f.state [] p).popStackType = if p = true then some (.tvar, f.state [] p) else none := if_pos rfl
    rw [hpop]
    cases p with
    | true => exact .inl ⟨.tvar, [], rfl, hpossible, ⟨.i32, .inl rfl⟩, fun n below =>
        ⟨fun _ => ⟨.inl rfl, .inl rfl⟩, fun _ => .inl rfl⟩⟩
    | false =>
      refine .inr ⟨rfl, fun n below h => ?_⟩
      rcases h with h | h <;> cases h
  | cons type stack =>
    have hlength : ¬ (type :: stack ++ f.below).length = f.below.length := by
      rw [cons_append, length_cons, List.length_append]
      omega
    obtain ⟨hn, hrest⟩ := possible_cons.1 hpossible
    exact .inl ⟨type, stack, if_neg hlength, hrest, hn, fun _ _ => Iff.rfl⟩

variable {env : ModuleEnvironment}

lemma checkStackType_num (type : StackType) : checkStackType env type (.num n) = true ↔ type.Allows n := by
  cases type with
  | tvar => exact ⟨fun _ => .inl rfl, fun _ => rfl⟩
  | val t =>
    unfold checkStackType ModuleEnvironment.checkIsSubtypeOf Allows
    simp [ValType.isReference]

variable (env : ModuleEnvironment)

lemma exact_popWithType (n : NumType) : Exact f (popWithType env (.num n)) fun ns ns' => ns = n :: ns' := by
  intro stack p hpossible
  rcases popStackType_spec (f := f) hpossible with ⟨type, rest, hpop, hrest, _, hmatches⟩ | ⟨hpop, hnone⟩
  · have heq : popWithType env (.num n) (f.state stack p) =
        if checkStackType env type (.num n) = true then some (f.state rest p) else none := by
      unfold popWithType
      rw [hpop]
      rfl
    by_cases hcheck : checkStackType env type (.num n) = true
    · have hallows := (checkStackType_num type).1 hcheck
      refine .inl ⟨rest, p, heq.trans (if_pos hcheck), hrest, fun ns' => ?_⟩
      exact ⟨fun h => ⟨n :: ns', (hmatches n ns').2 ⟨hallows, h⟩, rfl⟩, fun ⟨ns, h, hns⟩ => by
        rw [hns] at h
        exact ((hmatches n ns').1 h).2⟩
    · refine .inr ⟨heq.trans (if_neg hcheck), fun ns ns' h hns => hcheck ?_⟩
      rw [hns] at h
      exact (checkStackType_num type).2 ((hmatches n ns').1 h).1
  · refine .inr ⟨?_, fun ns ns' h hns => ?_⟩
    · unfold popWithType
      rw [hpop]
      rfl
    · rw [hns] at h
      exact hnone n ns' h

variable (ns : List NumType)

lemma exact_popReversed : Exact f (popReversed env (ns.map .num)) fun ns₁ ns₂ => ns₁ = ns ++ ns₂ := by
  induction ns with
  | nil => exact exact_some
  | cons n ns ih =>
    refine Exact.congr ((exact_popWithType env n).bind ih) fun ns₁ ns₂ => ?_
    simp

lemma exact_popTypes : Exact f (popTypes env (ns.map .num)) fun ns₁ ns₂ => ns₁ = ns.reverse ++ ns₂ := by
  have hexact := exact_popReversed (f := f) env ns.reverse
  rw [map_reverse] at hexact
  exact hexact

/-! ## Popping and pushing again -/

lemma popThenPushLoop_spec (hpossible : Possible stack p) :
    (popThenPushLoop env (f.block p) (ns.map .num) (stack ++ f.below) =
        some (ns.map num ++ stack.drop ns.length ++ f.below) ∧ Possible (stack.drop ns.length) p ∧
      ∀ below, Matches (stack.drop ns.length) p below ↔ Matches stack p (ns ++ below)) ∨
    (popThenPushLoop env (f.block p) (ns.map .num) (stack ++ f.below) = none ∧
      ∀ below, ¬ Matches stack p (ns ++ below)) := by
  induction ns generalizing stack with
  | nil => exact .inl ⟨rfl, hpossible, fun _ => Iff.rfl⟩
  | cons n ns ih =>
    cases stack with
    | nil =>
      have hloop : popThenPushLoop env (f.block p) (.num n :: ns.map .num) ([] ++ f.below) =
          if p = true then (popThenPushLoop env (f.block p) (ns.map .num) ([] ++ f.below)).map
            (.num n :: ·)
          else none := by
        rw [popThenPushLoop.eq_def]
        exact if_pos rfl
      rw [map_cons, hloop]
      cases p with
      | true =>
        rw [if_pos rfl]
        rcases ih hpossible with ⟨hrun, hrest, hmatches⟩ | ⟨_, hnone⟩
        · rw [hrun, drop_nil] at *
          exact .inl ⟨rfl, hpossible, fun below => ⟨fun _ => .inl rfl, fun _ => .inl rfl⟩⟩
        · exact absurd (.inl rfl) (hnone [])
      | false =>
        rw [if_neg Bool.false_ne_true]
        refine .inr ⟨rfl, fun below h => ?_⟩
        rcases h with h | h <;> cases h
    | cons type stack =>
      have hlength : ¬ (type :: (stack ++ f.below)).length = f.below.length := by
        rw [length_cons, List.length_append]
        omega
      have hloop : popThenPushLoop env (f.block p) (.num n :: ns.map .num)
          (type :: stack ++ f.below) = if checkStackType env type (.num n) = true then
            (popThenPushLoop env (f.block p) (ns.map .num) (stack ++ f.below)).map (.num n :: ·)
          else none := by
        rw [popThenPushLoop.eq_def]
        refine (if_neg hlength).trans ?_
        cases type with
        | tvar => rfl
        | val observed =>
          show (if checkStackType env (.val observed) (.num n) = true then _ else none) = _
          by_cases hcheck : checkStackType env (.val observed) (.num n) = true
          · rw [if_pos hcheck, if_pos hcheck]
            rcases (checkStackType_num _).1 hcheck with h | h
            · cases h
            · simp [h]
          · simp [hcheck]
      rw [map_cons, hloop]
      obtain ⟨_, hstack⟩ := possible_cons.1 hpossible
      by_cases hcheck : checkStackType env type (.num n) = true
      · have hallows := (checkStackType_num type).1 hcheck
        rw [if_pos hcheck]
        rcases ih hstack with ⟨hrun, hrest, hmatches⟩ | ⟨hrun, hnone⟩
        · rw [hrun]
          exact .inl ⟨rfl, hrest, fun below => (hmatches below).trans (and_iff_right hallows).symm⟩
        · rw [hrun]
          exact .inr ⟨rfl, fun below h => hnone below h.2⟩
      · rw [if_neg hcheck]
        exact .inr ⟨rfl, fun below h => hcheck ((checkStackType_num type).2 h.1)⟩

/-- The expected types are on the stack afterwards, also where it said less. -/
lemma popThenPushType_spec (hpossible : Possible stack p) : ((f.state stack p).popThenPushType env (ns.map .num) =
        some (f.state (ns.reverse.map num ++ stack.drop ns.length) p) ∧
      Possible (stack.drop ns.length) p ∧
      ∀ below, Matches (stack.drop ns.length) p below ↔ Matches stack p (ns.reverse ++ below)) ∨
    ((f.state stack p).popThenPushType env (ns.map .num) = none ∧
      ∀ below, ¬ Matches stack p (ns.reverse ++ below)) := by
  have hrun : (f.state stack p).popThenPushType env (ns.map .num) =
      (popThenPushLoop env (f.block p) (ns.reverse.map .num) (stack ++ f.below)).bind
        fun stack => some { f.state [] p with valueStack := stack } := by
    rw [map_reverse]
    rfl
  rw [hrun]
  rcases popThenPushLoop_spec (f := f) env ns.reverse hpossible with
    ⟨hloop, hrest, hmatches⟩ | ⟨hloop, hnone⟩
  · rw [length_reverse] at hloop hrest hmatches
    rw [hloop]
    exact .inl ⟨rfl, hrest, hmatches⟩
  · rw [hloop]
    simp [hnone]

lemma exact_popThenPushType : Exact f (popThenPushType env (ns.map .num)) fun ns₁ ns₂ =>
      ns₁ = ns₂ ∧ ∃ below, ns₁ = ns.reverse ++ below := by
  intro stack p hpossible
  rcases popThenPushType_spec (f := f) env ns hpossible with
    ⟨hrun, hrest, hmatches⟩ | ⟨hrun, hnone⟩
  · refine .inl ⟨_, p, hrun, possible_map_append hrest, fun ns' => ?_⟩
    rw [matches_map_append]
    constructor
    · rintro ⟨below, rfl, h⟩
      exact ⟨_, (hmatches below).1 h, rfl, below, rfl⟩
    · rintro ⟨_, h, rfl, below, rfl⟩
      simp [hmatches, h]
  · refine .inr ⟨hrun, fun ns₁ ns₂ h => ?_⟩
    rintro ⟨_, below, rfl⟩
    exact hnone below h

lemma drop_above (above below : List StackType) :
    (above ++ below).drop ((above ++ below).length - below.length) = below := by
  simp

/-- After a branch the stack may be any. -/
lemma exact_afterUnconditionalBranch : Exact f (fun s => some s.afterUnconditionalBranch) fun _ _ => True := by
  intro stack p hpossible
  refine .inl ⟨[], true, ?_, possible_nil, fun ns' => ⟨fun _ => ?_, fun _ => .inl rfl⟩⟩
  · exact congrArg (fun stack => some (OpIter.mk stack f.elseParams (f.block true :: f.outer)))
      (drop_above stack f.below)
  · obtain ⟨ns, h⟩ := hpossible
    exact ⟨ns, h, trivial⟩

end SpiderMonkey.Wasm
