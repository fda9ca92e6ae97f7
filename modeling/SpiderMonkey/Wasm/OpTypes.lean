import SpiderMonkey.Wasm.StackTypes

/-!
# The operations that are no blocks

Each of them takes the operands that its types say.
-/

namespace SpiderMonkey.Wasm

open OpIter List Option

/-! ## The context of a block -/

/-- The open blocks are those of the context. -/
structure Agrees (f : Frame) (C : Context) : Prop where
  labels : (f.block false :: f.outer).map Control.branchTargetType = C.labels.map (List.map .num)
  result : (f.block false :: f.outer).getLast?.map (fun body => body.type.results) = some (C.result.map .num)

/-- The operation has a type that takes the one list of operands to the other, the topmost first. -/
def OpRel (C : Context) (op : Op) (ns ns' : List NumType) : Prop :=
  ∃ params results below, OpTyped C op params results ∧ ns = params.reverse ++ below ∧ ns' = results.reverse ++ below

variable {f : Frame} {C : Context} {op op' : OpIter → Option OpIter}
  {R : List NumType → List NumType → Prop} {env : ModuleEnvironment}

lemma Exact.congr_op (h : Exact f op R)
    (heq : ∀ stack p, op' (f.state stack p) = op (f.state stack p)) : Exact f op' R := by
  intro stack p hpossible
  rw [heq]
  exact h stack p hpossible

lemma getControl_eq (hf : Agrees f C) (l : ℕ) (stack : List StackType) (p : Bool) :
    ((f.state stack p).getControl l).map Control.branchTargetType = C.labels[l]?.map (List.map .num) := by
  have hmap : ((f.block p :: f.outer).map Control.branchTargetType)[l]? =
      (C.labels.map (List.map ValType.num))[l]? := congrArg (fun ts => ts[l]?) hf.labels
  rw [getElem?_map, getElem?_map] at hmap
  exact hmap

lemma getLast_eq (hf : Agrees f C) (stack : List StackType) (p : Bool) :
    (f.state stack p).controlStack.getLast?.map (fun body => body.type.results) = some (C.result.map .num) := by
  rw [← hf.result]
  show (f.block p :: f.outer).getLast?.map _ = _
  cases f.outer with
  | nil => rfl
  | cons c outer => rfl

/-! ## Branches -/

lemma checkBranchValue_eq (hf : Agrees f C) (l : ℕ) (stack : List StackType) (p : Bool) :
    (f.state stack p).checkBranchValue env l = C.labels[l]?.bind fun ts =>
      (f.state stack p).popThenPushType env (ts.map .num) := by
  have heq := getControl_eq hf l stack p
  unfold checkBranchValue
  cases hcontrol : (f.state stack p).getControl l with
  | none =>
    rw [hcontrol] at heq
    cases hts : C.labels[l]? with
    | none => rfl
    | some ts =>
      simp [hts] at heq
  | some block =>
    rw [hcontrol] at heq
    cases hts : C.labels[l]? with
    | none =>
      simp [hts] at heq
    | some ts =>
      rw [hts] at heq
      show (f.state stack p).popThenPushType env block.branchTargetType = _
      rw [some.inj heq]
      rfl

lemma exact_checkBranchValue (hf : Agrees f C) (l : ℕ) : Exact f (checkBranchValue env l) fun ns ns' =>
      ∃ ts, C.labels[l]? = some ts ∧ ns = ns' ∧ ∃ below, ns = ts.reverse ++ below := by
  cases hts : C.labels[l]? with
  | none =>
    have hfail : Exact f (fun _ => none) fun ns ns' : List NumType =>
        ∃ ts : List NumType, (none : Option (List NumType)) = some ts ∧ ns = ns' ∧ ∃ below, ns = ts.reverse ++ below :=
      exact_fail (fun _ => rfl) fun _ _ ⟨_, h, _⟩ => nomatch h
    refine hfail.congr_op fun stack p => ?_
    rw [checkBranchValue_eq hf, hts]
    rfl
  | some ts =>
    refine ((exact_popThenPushType env ts).congr fun ns ns' => ?_).congr_op fun stack p => ?_
    · constructor
      · exact fun h => ⟨ts, rfl, h⟩
      · rintro ⟨_, heq, h⟩
        rw [some.inj heq]
        exact h
    · rw [checkBranchValue_eq hf, hts]
      rfl

lemma exact_readBr (hf : Agrees f C) (l : ℕ) : Exact f (readBr env l) (OpRel C (.br l)) := by
  refine ((exact_checkBranchValue hf l).bind exact_afterUnconditionalBranch).congr fun ns ns' => ?_
  constructor
  · rintro ⟨_, ⟨ts, hts, rfl, below, rfl⟩, _⟩
    exact ⟨_, _, [], .br hts below.reverse ns'.reverse, by simp, by simp⟩
  · rintro ⟨_, _, _, h, rfl, rfl⟩
    cases h with
    | br hts below ts' =>
      simp [hts]

lemma exact_readBrIf (hf : Agrees f C) (l : ℕ) : Exact f (readBrIf env l) (OpRel C (.brIf l)) := by
  refine ((exact_popWithType env .i32).bind (exact_checkBranchValue hf l)).congr fun ns ns' => ?_
  constructor
  · rintro ⟨_, rfl, ts, hts, rfl, below, rfl⟩
    exact ⟨_, _, below, .brIf hts, by simp, rfl⟩
  · rintro ⟨_, _, below, h, rfl, rfl⟩
    cases h with
    | brIf hts => exact ⟨_, by simp, _, hts, rfl, below, rfl⟩

/-- Each entry of the table finds the operands that it passes, as many as the one before. -/
def TableRel (C : Context) : List ℕ → Option (List NumType) → List NumType → Prop
  | [], _, _ => True
  | l :: ls, prev, ns => ∃ ts, C.labels[l]? = some ts ∧ (∀ ts' ∈ prev, ts'.length = ts.length) ∧
      (∃ below, ns = ts.reverse ++ below) ∧ TableRel C ls (some ts) ns

lemma checkBrTableEntry_eq (hf : Agrees f C) (l : ℕ) (prev : Option (List NumType))
    (stack : List StackType) (p : Bool) :
    (f.state stack p).checkBrTableEntry env l (prev.map (List.map .num)) = C.labels[l]?.bind fun ts =>
        if prev.any (fun ts' => decide (ts'.length ≠ ts.length)) = true then none
        else ((f.state stack p).popThenPushType env (ts.map .num)).map fun s => (ts.map .num, s) := by
  have heq := getControl_eq hf l stack p
  unfold checkBrTableEntry
  cases hcontrol : (f.state stack p).getControl l with
  | none =>
    rw [hcontrol] at heq
    cases hts : C.labels[l]? with
    | none => rfl
    | some ts =>
      simp [hts] at heq
  | some block =>
    rw [hcontrol] at heq
    cases hts : C.labels[l]? with
    | none =>
      simp [hts] at heq
    | some ts =>
      rw [hts] at heq
      have hblock : block.branchTargetType = ts.map .num := Option.some.inj heq
      show (if (prev.map (List.map ValType.num)).any
          (fun prevType => decide (prevType.length ≠ block.branchTargetType.length)) = true then none
        else (f.state stack p).popThenPushType env block.branchTargetType >>= _) = _
      rw [hblock, Option.any_map]
      simp only [length_map]
      rw [Option.bind_some]
      congr 1
      cases (f.state stack p).popThenPushType env (ts.map .num) <;> rfl

lemma exact_checkBrTable (hf : Agrees f C) (ls : List ℕ) (prev : Option (List NumType)) :
    Exact f (fun s => checkBrTable env ls (prev.map (List.map .num)) s) fun ns ns' =>
      ns = ns' ∧ TableRel C ls prev ns := by
  induction ls generalizing prev with
  | nil => exact exact_some.congr fun ns ns' => ⟨fun h => ⟨h, trivial⟩, fun h => h.1⟩
  | cons l ls ih =>
    by_cases hentry : ∃ ts, C.labels[l]? = some ts ∧ ∀ ts' ∈ prev, ts'.length = ts.length
    · obtain ⟨ts, hts, hlength⟩ := hentry
      refine (((exact_popThenPushType env ts).bind (ih (some ts))).congr
        fun ns ns' => ?_).congr_op fun stack p => ?_
      · constructor
        · rintro ⟨_, ⟨rfl, hbelow⟩, rfl, htable⟩
          exact ⟨rfl, ts, hts, hlength, hbelow, htable⟩
        · rintro ⟨rfl, ts', hts', _, hbelow, htable⟩
          cases hts.symm.trans hts'
          exact ⟨ns, ⟨rfl, hbelow⟩, rfl, htable⟩
      · have hany : ¬ prev.any (fun ts' => decide (ts'.length ≠ ts.length)) = true := fun h => by
          obtain ⟨ts', hts', hne⟩ := (any_eq_true _ _).1 h
          exact (of_decide_eq_true hne) (hlength ts' hts')
        show ((f.state stack p).checkBrTableEntry env l (prev.map (List.map .num)) >>= _) = _
        rw [checkBrTableEntry_eq hf, hts, bind_some, if_neg hany]
        cases (f.state stack p).popThenPushType env (ts.map .num) <;> rfl
    · refine (exact_fail (R := fun ns ns' => ns = ns' ∧ TableRel C (l :: ls) prev ns) (fun _ => rfl)
        fun ns ns' => ?_).congr_op fun stack p => ?_
      · rintro ⟨_, ts, hts, hlength, _⟩
        exact hentry ⟨ts, hts, hlength⟩
      · show ((f.state stack p).checkBrTableEntry env l (prev.map (List.map .num)) >>= _) = _
        rw [checkBrTableEntry_eq hf]
        cases hts : C.labels[l]? with
        | none => rfl
        | some ts =>
          have hany : prev.any (fun ts' => decide (ts'.length ≠ ts.length)) = true := by
            by_contra hany
            refine hentry ⟨ts, hts, fun ts' hts' => ?_⟩
            by_contra hne
            exact hany ((any_eq_true _ _).2 ⟨ts', hts', decide_eq_true hne⟩)
          rw [bind_some, if_pos hany]
          rfl

/-- Labels of one length that pass operands of one stack pass operands of one list of types. -/
lemma tableRel_some {ls : List ℕ} {ts below : List NumType} :
    TableRel C ls (some ts) (ts.reverse ++ below) ↔ ∀ l ∈ ls, C.labels[l]? = some ts := by
  induction ls with
  | nil => exact ⟨nofun, fun _ => trivial⟩
  | cons l ls ih =>
    rw [forall_mem_cons]
    constructor
    · rintro ⟨ts', hts', hlength, ⟨below', heq⟩, htable⟩
      have hrev : ts.reverse.length = ts'.reverse.length := by
        simpa using hlength ts rfl
      have hsame : ts = ts' := reverse_injective (append_inj heq hrev).1
      subst hsame
      exact ⟨hts', ih.1 htable⟩
    · rintro ⟨hl, hls⟩
      refine ⟨ts, hl, fun ts' hts' => ?_, ⟨below, rfl⟩, ih.2 hls⟩
      rw [some.inj hts']

lemma tableRel_none {ls : List ℕ} {l : ℕ} {ns : List NumType} :
    TableRel C (ls ++ [l]) none ns ↔ ∃ ts, (∀ l' ∈ ls ++ [l], C.labels[l']? = some ts) ∧
      ∃ below, ns = ts.reverse ++ below := by
  obtain ⟨l', ls', hls⟩ := exists_cons_of_ne_nil (append_ne_nil_of_right_ne_nil ls
    (cons_ne_nil l []))
  rw [hls]
  constructor
  · rintro ⟨ts, hts, _, ⟨below, rfl⟩, htable⟩
    exact ⟨ts, forall_mem_cons.2 ⟨hts, tableRel_some.1 htable⟩, below, rfl⟩
  · rintro ⟨ts, hall, below, rfl⟩
    obtain ⟨hl, hrest⟩ := forall_mem_cons.1 hall
    exact ⟨ts, hl, fun _ h => (nomatch h), ⟨below, rfl⟩, tableRel_some.2 hrest⟩

lemma exact_readBrTable (hf : Agrees f C) {ls : List ℕ} (hfits : ls.length ≤ MaxBrTableElems)
    (l : ℕ) : Exact f (readBrTable env ls l) (OpRel C (.brTable ls l)) := by
  refine (((exact_popWithType env .i32).bind ((exact_checkBrTable hf (ls ++ [l]) none).bind
    exact_afterUnconditionalBranch)).congr fun ns ns' => ?_).congr_op fun stack p =>
      if_neg (Nat.not_lt.2 hfits)
  constructor
  · rintro ⟨_, rfl, _, ⟨rfl, htable⟩, _⟩
    obtain ⟨ts, hts, below, rfl⟩ := tableRel_none.1 htable
    exact ⟨_, _, [], .brTable hts below.reverse ns'.reverse, by simp, by simp⟩
  · rintro ⟨_, _, _, h, rfl, rfl⟩
    cases h with
    | brTable hts below ts' =>
      rw [reverse_append, reverse_append, append_assoc, append_assoc]
      exact ⟨_, rfl, _, ⟨rfl, tableRel_none.2 ⟨_, hts, _, rfl⟩⟩, trivial⟩

lemma exact_readReturn (hf : Agrees f C) : Exact f (readReturn env) (OpRel C .return) := by
  refine (((exact_popTypes env C.result).bind exact_afterUnconditionalBranch).congr
    fun ns ns' => ?_).congr_op fun stack p => ?_
  · constructor
    · rintro ⟨below, rfl, _⟩
      exact ⟨_, _, [], .return below.reverse ns'.reverse, by simp, by simp⟩
    · rintro ⟨_, _, _, h, rfl, rfl⟩
      cases h with
      | «return» below ts' =>
        simp
  · have hlast := getLast_eq hf stack p
    obtain ⟨body, hbody, hresults⟩ := map_eq_some_iff.1 hlast
    show ((f.state stack p).controlStack.getLast? >>= _) = _
    simp [hbody, hresults]

/-! ## Operands -/

lemma exact_popPush (env : ModuleEnvironment) {o : Op} (params results : List NumType)
    (htyped : ∀ params' results', OpTyped C o params' results' ↔ params' = params ∧ results' = results) :
    Exact f (fun s => (popTypes env (params.map .num) s).bind fun s =>
      some (s.pushTypes (results.map .num))) (OpRel C o) := by
  refine ((exact_popTypes env params).bind (exact_pushTypes results)).congr fun ns ns' => ?_
  constructor
  · rintro ⟨below, rfl, rfl⟩
    exact ⟨params, results, below, (htyped _ _).2 ⟨rfl, rfl⟩, rfl, rfl⟩
  · rintro ⟨_, _, below, h, rfl, rfl⟩
    obtain ⟨rfl, rfl⟩ := (htyped _ _).1 h
    simp

lemma exact_untyped {o : Op} (hop : ∀ s, op s = none)
    (htyped : ∀ params results, ¬ OpTyped C o params results) : Exact f op (OpRel C o) :=
  exact_fail hop fun _ _ ⟨params, results, _, h, _⟩ => htyped params results h

lemma popTypes_single (t : ValType) (s : OpIter) : popTypes env [t] s = s.popWithType env t := by
  show (s.popWithType env t).bind some = _
  simp

lemma exact_readDrop : Exact f readDrop (OpRel C .drop) := by
  intro stack p hpossible
  rcases popStackType_spec (f := f) hpossible with
    ⟨type, rest, hpop, hrest, _, hmatches⟩ | ⟨hpop, hnone⟩
  · refine .inl ⟨rest, p, ?_, hrest, fun ns' => ?_⟩
    · unfold readDrop
      rw [hpop]
      rfl
    · constructor
      · intro h
        obtain ⟨n, hn⟩ := ‹∃ n, type.Allows n›
        exact ⟨n :: ns', (hmatches n ns').2 ⟨hn, h⟩, [n], [], ns', .drop n, rfl, rfl⟩
      · rintro ⟨_, h, _, _, below, htyped, rfl, rfl⟩
        cases htyped
        exact ((hmatches _ below).1 h).2
  · refine .inr ⟨?_, ?_⟩
    · unfold readDrop
      rw [hpop]
      rfl
    · rintro _ _ h ⟨_, _, below, htyped, rfl, rfl⟩
      cases htyped
      exact hnone _ below h

/-- The result of a `select` is of a type that both operands can have. -/
lemma selectType_spec {falseType trueType : StackType} (hfalse : ∃ n, falseType.Allows n)
    (htrue : ∃ n, trueType.Allows n) :
    (∃ type, selectType falseType trueType = some type ∧ (∃ n, type.Allows n) ∧
      ∀ n, type.Allows n ↔ falseType.Allows n ∧ trueType.Allows n) ∨
    (selectType falseType trueType = none ∧ ∀ n, ¬ (falseType.Allows n ∧ trueType.Allows n)) := by
  obtain ⟨n, rfl | rfl⟩ := hfalse
  · obtain ⟨n', rfl | rfl⟩ := htrue
    · exact .inl ⟨.tvar, rfl, ⟨n, .inl rfl⟩, fun _ => ⟨fun h => ⟨h, h⟩, fun h => h.1⟩⟩
    · exact .inl ⟨.num n', rfl, ⟨n', .inr rfl⟩, fun _ => ⟨fun h => ⟨.inl rfl, h⟩, fun h => h.2⟩⟩
  · obtain ⟨n', rfl | rfl⟩ := htrue
    · exact .inl ⟨.num n, rfl, ⟨n, .inr rfl⟩, fun _ => ⟨fun h => ⟨h, .inl rfl⟩, fun h => h.1⟩⟩
    · by_cases hsame : n = n'
      · subst hsame
        refine .inl ⟨.num n, ?_, ⟨n, .inr rfl⟩, fun _ => ⟨fun h => ⟨h, h⟩, fun h => h.1⟩⟩
        cases n <;> rfl
      · refine .inr ⟨?_, fun m h => hsame ((allows_num.1 h.1).symm.trans (allows_num.1 h.2))⟩
        cases n <;> cases n' <;> first | rfl | exact absurd rfl hsame

lemma exact_readSelectOperands : Exact f readSelectOperands fun ns ns' =>
    ∃ n below, ns = n :: n :: below ∧ ns' = n :: below := by
  intro stack p hpossible
  rcases popStackType_spec (f := f) hpossible with
    ⟨falseType, stack₁, hpop₁, hstack₁, hfalse, hmatches₁⟩ | ⟨hpop₁, hnone₁⟩
  · rcases popStackType_spec (f := f) hstack₁ with
      ⟨trueType, stack₂, hpop₂, hstack₂, htrue, hmatches₂⟩ | ⟨hpop₂, hnone₂⟩
    · have heq : (f.state stack p).readSelectOperands = (selectType falseType trueType).map
          fun type => f.state (type :: stack₂) p := by
        unfold readSelectOperands
        rw [hpop₁]
        show ((f.state stack₁ p).popStackType >>= _) = _
        rw [hpop₂]
        show (selectType falseType trueType).bind (fun type =>
          some (f.state (type :: stack₂) p)) = _
        cases selectType falseType trueType <;> rfl
      rw [heq]
      rcases selectType_spec hfalse htrue with ⟨type, htype, hallowed, hiff⟩ | ⟨htype, hnone⟩
      · rw [htype]
        refine .inl ⟨type :: stack₂, p, rfl, possible_cons.2 ⟨hallowed, hstack₂⟩, fun ns' => ?_⟩
        rw [matches_cons]
        constructor
        · rintro ⟨n, below, rfl, hn, h⟩
          obtain ⟨hf, ht⟩ := (hiff n).1 hn
          simp [hmatches₁, hf, hmatches₂, ht, h]
        · rintro ⟨_, h, n, below, rfl, rfl⟩
          obtain ⟨hf, h⟩ := (hmatches₁ _ _).1 h
          obtain ⟨ht, h⟩ := (hmatches₂ _ _).1 h
          simp [hiff, hf, ht, h]
      · rw [htype]
        refine .inr ⟨rfl, ?_⟩
        rintro _ _ h ⟨n, below, rfl, rfl⟩
        obtain ⟨hf, h⟩ := (hmatches₁ _ _).1 h
        exact hnone n ⟨hf, ((hmatches₂ _ _).1 h).1⟩
    · refine .inr ⟨?_, ?_⟩
      · unfold readSelectOperands
        simp [hpop₁, hpop₂]
      · rintro _ _ h ⟨n, below, rfl, rfl⟩
        exact hnone₂ _ _ ((hmatches₁ _ _).1 h).2
  · refine .inr ⟨?_, ?_⟩
    · unfold readSelectOperands
      rw [hpop₁]
      rfl
    · rintro _ _ h ⟨n, below, rfl, rfl⟩
      exact hnone₁ _ _ h

lemma exact_readSelect : Exact f (readSelect env) (OpRel C .select) := by
  refine ((exact_popWithType env .i32).bind exact_readSelectOperands).congr fun ns ns' => ?_
  constructor
  · rintro ⟨_, rfl, n, below, rfl, rfl⟩
    exact ⟨_, _, below, .select n, rfl, rfl⟩
  · rintro ⟨_, _, below, h, rfl, rfl⟩
    cases h with
    | select n => exact ⟨_, rfl, n, below, rfl, rfl⟩

lemma exact_readSelectTyped (length : ℕ) (n : NumType) :
    Exact f (readSelectTyped C.env length (.num n)) (OpRel C (.selectTyped length (.num n))) := by
  by_cases hallowed : C.env.refTypesEnabled = true ∧ length = 1
  · obtain ⟨henabled, rfl⟩ := hallowed
    refine (exact_popPush C.env [n, n, .i32] [n]
      fun params results => ⟨fun h => ?_, ?_⟩).congr_op fun stack p => if_pos ⟨henabled, rfl, rfl⟩
    · cases h
      simp
    · rintro ⟨rfl, rfl⟩
      exact .selectTyped n henabled
  · refine exact_untyped (fun s => if_neg fun h => hallowed ⟨h.1, h.2.1⟩) fun params results h => ?_
    cases h with
    | selectTyped _ henabled => exact hallowed ⟨henabled, rfl⟩

/-! ## Locals, calls and numbers -/

lemma exact_readGetLocal {id : ℕ} (hnum : ∀ t, C.locals[id]? = some t → t.IsNumeric) :
    Exact f (readGetLocal C.locals id) (OpRel C (.getLocal id)) := by
  cases ht : C.locals[id]? with
  | none =>
    refine exact_untyped (fun s => ?_) fun params results h => ?_
    · unfold readGetLocal
      rw [ht]
      rfl
    · cases h with
      | getLocal h => exact nomatch ht.symm.trans h
  | some t =>
    obtain ⟨n, rfl⟩ := hnum t ht
    refine (exact_popPush C.env [] [n]
      fun params results => ⟨fun h => ?_, ?_⟩).congr_op fun stack p => ?_
    · cases h with
      | getLocal h =>
        rw [ValType.num.inj (some.inj (h.symm.trans ht))]
        simp
    · rintro ⟨rfl, rfl⟩
      exact .getLocal ht
    · unfold readGetLocal
      rw [ht]
      rfl

lemma exact_readSetLocal {id : ℕ} (hnum : ∀ t, C.locals[id]? = some t → t.IsNumeric) :
    Exact f (readSetLocal env C.locals id) (OpRel C (.setLocal id)) := by
  cases ht : C.locals[id]? with
  | none =>
    refine exact_untyped (fun s => ?_) fun params results h => ?_
    · unfold readSetLocal
      rw [ht]
      rfl
    · cases h with
      | setLocal h => exact nomatch ht.symm.trans h
  | some t =>
    obtain ⟨n, rfl⟩ := hnum t ht
    refine ((exact_popWithType env n).congr fun ns ns' => ⟨?_, ?_⟩).congr_op fun stack p => ?_
    · rintro rfl
      exact ⟨[n], [], ns', .setLocal ht, rfl, rfl⟩
    · rintro ⟨_, _, below, h, rfl, rfl⟩
      cases h with
      | setLocal h =>
        rw [ValType.num.inj (some.inj (h.symm.trans ht))]
        rfl
    · unfold readSetLocal
      rw [ht]
      rfl

lemma exact_readTeeLocal {id : ℕ} (hnum : ∀ t, C.locals[id]? = some t → t.IsNumeric) :
    Exact f (readTeeLocal env C.locals id) (OpRel C (.teeLocal id)) := by
  cases ht : C.locals[id]? with
  | none =>
    refine exact_untyped (fun s => ?_) fun params results h => ?_
    · unfold readTeeLocal
      rw [ht]
      rfl
    · cases h with
      | teeLocal h => exact nomatch ht.symm.trans h
  | some t =>
    obtain ⟨n, rfl⟩ := hnum t ht
    refine ((exact_popThenPushType env [n]).congr fun ns ns' => ⟨?_, ?_⟩).congr_op
      fun stack p => ?_
    · rintro ⟨rfl, below, rfl⟩
      exact ⟨[n], [n], below, .teeLocal ht, rfl, rfl⟩
    · rintro ⟨_, _, below, h, rfl, rfl⟩
      cases h with
      | teeLocal h =>
        rw [ValType.num.inj (some.inj (h.symm.trans ht))]
        simp
    · unfold readTeeLocal
      rw [ht]
      rfl

lemma numFuncType_injective {params results params' results' : List NumType}
    (h : numFuncType params results = numFuncType params' results') :
    params = params' ∧ results = results' :=
  ⟨map_num_injective (congrArg FuncType.args h), map_num_injective (congrArg FuncType.results h)⟩

lemma exact_readCall {funcIndex : ℕ} (hnum : (Op.call funcIndex).IsNumeric C.env C.locals) :
    Exact f (readCall C.env funcIndex) (OpRel C (.call funcIndex)) := by
  cases ht : C.env.funcTypes[funcIndex]? with
  | none =>
    refine exact_untyped (fun s => ?_) fun params results h => ?_
    · unfold readCall
      rw [ht]
      rfl
    · cases h with
      | call h => exact nomatch ht.symm.trans h
  | some t =>
    obtain ⟨hargs, hresults⟩ := hnum t ht
    obtain ⟨params, hparams⟩ := exists_map_num hargs
    obtain ⟨results, hresults⟩ := exists_map_num hresults
    have htype : t = numFuncType params results := by
      unfold numFuncType
      rw [← hparams, ← hresults]
    subst htype
    refine (exact_popPush C.env params results
      fun params' results' => ⟨fun h => ?_, ?_⟩).congr_op fun stack p => ?_
    · cases h with
      | call h => exact numFuncType_injective (some.inj (h.symm.trans ht))
    · rintro ⟨rfl, rfl⟩
      exact .call ht
    · unfold readCall
      rw [ht]
      rfl

lemma exact_readConst (n : NumType) : Exact f (readConst n) (OpRel C (.const n)) := by
  refine (exact_popPush C.env [] [n]
    fun params results => ⟨fun h => ?_, ?_⟩).congr_op fun stack p => rfl
  · cases h
    simp
  · rintro ⟨rfl, rfl⟩
    exact .const n

lemma readConversion_eq (n n' : NumType) (s : OpIter) : readConversion env n n' s =
    (popTypes env [.num n] s).bind fun s => some (s.pushTypes [.num n']) := by
  rw [popTypes_single]
  rfl

lemma exact_readConversion (n n' : NumType) : Exact f (readConversion env n n') (OpRel C (.conversion n n')) := by
  refine (exact_popPush env [n] [n']
    fun params results => ⟨fun h => ?_, ?_⟩).congr_op fun stack p => readConversion_eq n n' _
  · cases h
    simp
  · rintro ⟨rfl, rfl⟩
    exact .conversion n n'

lemma exact_readUnary (n : NumType) : Exact f (readUnary env n) (OpRel C (.unary n)) := by
  refine (exact_popPush env [n] [n]
    fun params results => ⟨fun h => ?_, ?_⟩).congr_op fun stack p => readConversion_eq n n _
  · cases h
    simp
  · rintro ⟨rfl, rfl⟩
    exact .unary n

lemma exact_readBinary (n : NumType) : Exact f (readBinary env n) (OpRel C (.binary n)) := by
  refine (exact_popPush env [n, n] [n]
    fun params results => ⟨fun h => ?_, ?_⟩).congr_op fun stack p => rfl
  · cases h
    simp
  · rintro ⟨rfl, rfl⟩
    exact .binary n

lemma exact_readComparison (n : NumType) : Exact f (readComparison env n) (OpRel C (.comparison n)) := by
  refine (exact_popPush env [n, n] [.i32]
    fun params results => ⟨fun h => ?_, ?_⟩).congr_op fun stack p => rfl
  · cases h
    simp
  · rintro ⟨rfl, rfl⟩
    exact .comparison n

lemma exact_unreachable : Exact f (fun s => some s.afterUnconditionalBranch) (OpRel C .unreachable) := by
  refine exact_afterUnconditionalBranch.congr fun ns ns' => ⟨fun _ => ?_, fun _ => trivial⟩
  exact ⟨ns.reverse, ns'.reverse, [], .unreachable _ _, by simp, by simp⟩

/-! ## All of them -/

/-- The operation begins no block, and ends none. -/
def Op.IsPlain : Op → Prop
  | .block _ | .loop _ | .if _ | .else | .end => False
  | _ => True

theorem exact_step (hf : Agrees f C) {o : Op} (hplain : o.IsPlain)
    (hnum : o.IsNumeric C.env C.locals) (hfits : o.TableFits) :
    Exact f (fun s => OpIter.step C.env C.locals s o) (OpRel C o) := by
  cases o with
  | block t => exact hplain.elim
  | loop t => exact hplain.elim
  | «if» t => exact hplain.elim
  | «else» => exact hplain.elim
  | «end» => exact hplain.elim
  | br l => exact exact_readBr hf l
  | brIf l => exact exact_readBrIf hf l
  | brTable ls l => exact exact_readBrTable hf hfits l
  | «return» => exact exact_readReturn hf
  | unreachable => exact exact_unreachable
  | drop => exact exact_readDrop
  | select => exact exact_readSelect
  | selectTyped length t =>
    obtain ⟨n, rfl⟩ := hnum
    exact exact_readSelectTyped length n
  | getLocal id => exact exact_readGetLocal hnum
  | setLocal id => exact exact_readSetLocal hnum
  | teeLocal id => exact exact_readTeeLocal hnum
  | call funcIndex => exact exact_readCall hnum
  | const n => exact exact_readConst n
  | unary n => exact exact_readUnary n
  | binary n => exact exact_readBinary n
  | comparison n => exact exact_readComparison n
  | conversion n n' => exact exact_readConversion n n'
  | refNull t => exact hnum.elim
  | refIsNull => exact hnum.elim
  | structNew i => exact hnum.elim
  | structGet i j => exact hnum.elim
  | structSet i j => exact hnum.elim
  | structNarrow t t' => exact hnum.elim

end SpiderMonkey.Wasm
