import SpiderMonkey.Wasm.OpTypes

/-!
# Blocks and sequences

A block is entered with its parameters on the stack and left with its results, and in between the rest of
the stack is not seen.  Hence a sequence of instructions takes the lists of operands exactly to those that
its typing relates to them.
-/

namespace SpiderMonkey.Wasm

open OpIter List Option StackType

variable {f g : Frame} {C : Context} {env : ModuleEnvironment} {locals : List ValType}
  {stack rest : List StackType} {p : Bool} {kind : LabelKind} {type : BlockType}
  {ps rs : List NumType}

/-! ## Running several operations -/

lemma run_append (ops ops' : List Op) (s : OpIter) :
    run env locals (ops ++ ops') s = (run env locals ops s).bind (run env locals ops') := by
  induction ops generalizing s with
  | nil => rfl
  | cons op ops ih =>
    show (if s.controlStack = [] then none else (s.step env locals op).bind (run env locals (ops ++ ops')))
      = Option.bind (if s.controlStack = [] then none
          else (s.step env locals op).bind (run env locals ops)) _
    by_cases hempty : s.controlStack = []
    · simp [hempty]
    · rw [if_neg hempty, if_neg hempty, Option.bind_assoc]
      simp [ih]

lemma run_cons_of_ne_nil {s : OpIter} (hs : s.controlStack ≠ []) (op : Op) (ops : List Op) :
    run env locals (op :: ops) s = (s.step env locals op).bind (run env locals ops) := if_neg hs

lemma checkStackAtEndOfBlock_of_nil {s : OpIter} (hs : s.controlStack = []) : s.checkStackAtEndOfBlock env = none := by
  unfold checkStackAtEndOfBlock back
  rw [hs]
  rfl

lemma run_end (ops : List Op) (s : OpIter) : run env locals (.end :: ops) s =
    (s.readEnd env).bind fun s => run env locals ops s.popEnd := by
  by_cases hs : s.controlStack = []
  · have hend : s.readEnd env = none := by
      unfold readEnd
      rw [checkStackAtEndOfBlock_of_nil hs]
      rfl
    rw [hend]
    exact if_pos hs
  · rw [run_cons_of_ne_nil hs]
    show ((s.readEnd env).map popEnd).bind _ = _
    cases s.readEnd env <;> rfl

lemma run_else (ops : List Op) (s : OpIter) : run env locals (.else :: ops) s =
    (s.readElse env).bind (run env locals ops) := by
  by_cases hs : s.controlStack = []
  · have helse : s.readElse env = none := by
      unfold readElse back
      rw [hs]
      rfl
    rw [helse]
    exact if_pos hs
  · exact run_cons_of_ne_nil hs _ _

/-! ## Entering a block -/

/-- The frame of a block in the innermost one, of which `rest` is left below. -/
def Frame.inner (f : Frame) (rest : List StackType) (p : Bool) (kind : LabelKind) (type : BlockType)
    (elseParams : List StackType) : Frame :=
  ⟨rest ++ f.below, elseParams, kind, type, f.block p :: f.outer⟩

lemma Agrees.inner (hf : Agrees f C) {ts : List NumType} {elseParams : List StackType}
    (htype : (if kind = .loop then type.params else type.results) = ts.map .num) :
    Agrees (f.inner rest p kind type elseParams) (C.label ts) where
  labels := congrArg₂ List.cons htype hf.labels
  result := by
    refine Eq.trans ?_ hf.result
    show ((_ : Control) :: f.block p :: f.outer).getLast?.map _ = _
    rw [getLast?_cons_cons]
    cases f.outer with
    | nil => rfl
    | cons c outer => rfl

lemma pushControl_spec (env : ModuleEnvironment) (kind : LabelKind) (ps rs : List NumType)
    (hpossible : Possible stack p) :
    ((f.state stack p).pushControl env kind ⟨ps.map .num, rs.map .num⟩ =
        some ((f.inner (stack.drop ps.length) p kind ⟨ps.map .num, rs.map .num⟩ f.elseParams).state
          (ps.reverse.map .num) false) ∧
      Possible (stack.drop ps.length) p ∧
      ∀ below, Matches (stack.drop ps.length) p below ↔ Matches stack p (ps.reverse ++ below)) ∨
    ((f.state stack p).pushControl env kind ⟨ps.map .num, rs.map .num⟩ = none ∧
      ∀ below, ¬ Matches stack p (ps.reverse ++ below)) := by
  unfold pushControl
  rcases popThenPushType_spec (f := f) env ps hpossible with ⟨hpop, hrest⟩ | ⟨hpop, hnone⟩
  · refine .inl ⟨?_, hrest⟩
    rw [hpop]
    have hbase : (ps.reverse.map num ++ stack.drop ps.length ++ f.below).length -
        (ps.map ValType.num).length = (stack.drop ps.length ++ f.below).length := by
      simp
    show some (pushEntry kind _ (f.state _ p)) = _
    unfold pushEntry Frame.state Frame.inner Frame.block
    simp
  · simp [hpop, hnone]

/-! ## Leaving a block -/

lemma matches_length_le {ns : List NumType} (h : Matches stack p ns) : stack.length ≤ ns.length := by
  induction stack generalizing ns with
  | nil => exact Nat.zero_le _
  | cons type stack ih =>
    obtain ⟨n, below, rfl, _, hbelow⟩ := matches_cons.1 h
    simp [ih, hbelow]

lemma checkStackAtEndOfBlock_spec (env : ModuleEnvironment) (hrs : g.type.results = rs.map .num)
    (hpossible : Possible stack p) :
    ((g.state stack p).checkStackAtEndOfBlock env = some (g.state (rs.reverse.map .num) p) ∧
      Matches stack p rs.reverse) ∨
    ((g.state stack p).checkStackAtEndOfBlock env = none ∧ ¬ Matches stack p rs.reverse) := by
  have hcheck : (g.state stack p).checkStackAtEndOfBlock env = if rs.length < stack.length then none
      else (g.state stack p).popThenPushType env (rs.map .num) := by
    have hlength : (stack ++ g.below).length - g.below.length = stack.length := by
      simp
    show (if g.type.results.length < (stack ++ g.below).length - g.below.length then none
      else (g.state stack p).popThenPushType env g.type.results) = _
    simp [hrs]
  rw [hcheck]
  by_cases hlong : rs.length < stack.length
  · refine .inr ⟨if_pos hlong, fun h => ?_⟩
    have hle := matches_length_le h
    rw [length_reverse] at hle
    omega
  · rw [if_neg hlong]
    have hdrop : stack.drop rs.length = [] := drop_eq_nil_of_le (Nat.le_of_not_lt hlong)
    rcases popThenPushType_spec (f := g) env rs hpossible with
      ⟨hpop, _, hmatches⟩ | ⟨hpop, hnone⟩
    · rw [hdrop] at hpop hmatches
      rw [append_nil] at hpop
      have h := (hmatches []).1 (.inr rfl)
      rw [append_nil] at h
      exact .inl ⟨hpop, h⟩
    · refine .inr ⟨hpop, fun h => hnone [] ?_⟩
      rw [append_nil]
      exact h

lemma matches_map {ns ns' : List NumType} : Matches (ns'.map num) false ns ↔ ns = ns' := by
  have h : Matches (ns'.map num ++ []) false ns ↔ _ := matches_map_append
  rw [append_nil] at h
  rw [h]
  constructor
  · rintro ⟨below, rfl, hbelow⟩
    rcases hbelow with hbelow | rfl
    · cases hbelow
    · simp
  · rintro rfl
    exact ⟨[], (append_nil _).symm, .inr rfl⟩

/-- The sequence has the type that takes the one list of operands to the other, the topmost first. -/
def SequenceRel (C : Context) (e : Expr) (ns ns' : List NumType) : Prop :=
  Typed C e ns.reverse ns'.reverse

lemma sequenceRel_reverse {e : Expr} : SequenceRel C e ps.reverse rs.reverse ↔ Typed C e ps rs := by
  unfold SequenceRel
  simp

/-- The operations of the sequence do what its types say, whatever the open blocks are. -/
def SequenceExact (C : Context) (e : Expr) : Prop :=
  ∀ f, Agrees f C → Exact f (run C.env C.locals e.ops) (SequenceRel C e)

lemma body_spec {e : Expr} {ts : List NumType} (ps rs : List NumType) (he : SequenceExact (C.label ts) e)
    (hg : Agrees g (C.label ts)) (hrs : g.type.results = rs.map .num) :
    (∃ stack p, run C.env C.locals e.ops (g.state (ps.reverse.map .num) false) = some (g.state stack p) ∧
      (g.state stack p).checkStackAtEndOfBlock C.env = some (g.state (rs.reverse.map .num) p) ∧
      Typed (C.label ts) e ps rs) ∨
    ((∀ k : OpIter → Option OpIter, (∀ s, s.checkStackAtEndOfBlock C.env = none → k s = none) →
        (run C.env C.locals e.ops (g.state (ps.reverse.map .num) false)).bind k = none) ∧
      ¬ Typed (C.label ts) e ps rs) := by
  have hstart : Matches (ps.reverse.map num) false ps.reverse := matches_map.2 rfl
  rcases he g hg _ false ⟨_, hstart⟩ with ⟨stack, p, hrun, hpossible, hmatches⟩ | ⟨hrun, hnone⟩
  · have hresults : Matches stack p rs.reverse ↔ Typed (C.label ts) e ps rs := by
      rw [hmatches]
      constructor
      · rintro ⟨ns, hns, h⟩
        rw [matches_map.1 hns] at h
        exact sequenceRel_reverse.1 h
      · intro h
        exact ⟨ps.reverse, hstart, sequenceRel_reverse.2 h⟩
    rcases checkStackAtEndOfBlock_spec C.env hrs hpossible with ⟨hcheck, h⟩ | ⟨hcheck, h⟩
    · exact .inl ⟨stack, p, hrun, hcheck, hresults.1 h⟩
    · exact .inr ⟨fun k hk => (congrArg (bind · k) hrun).trans (hk _ hcheck),
        fun htyped => h (hresults.2 htyped)⟩
  · refine .inr ⟨fun k _ => congrArg (bind · k) hrun, fun h => ?_⟩
    exact hnone ps.reverse rs.reverse hstart (sequenceRel_reverse.2 h)

/-! ## The frames of the blocks -/

lemma popEnd_inner (f : Frame) (rest : List StackType) (p q : Bool) (kind : LabelKind) (type : BlockType) :
    ((f.inner rest p kind type f.elseParams).state stack q).popEnd = f.state (stack ++ rest) p := by
  unfold popEnd Frame.state Frame.inner
  simp

lemma saveElseParams_inner (f : Frame) (rest : List StackType) (p : Bool) (ps : List NumType) (type : BlockType) :
    saveElseParams ps.length ((f.inner rest p .then type f.elseParams).state
        (ps.reverse.map .num) false) =
      (f.inner rest p .then type (ps.reverse.map num ++ f.elseParams)).state
        (ps.reverse.map .num) false := by
  have htake : (ps.reverse.map num ++ (rest ++ f.below)).take ps.length = ps.reverse.map num := by
    simp
  exact congrArg (fun saved => OpIter.mk _ (saved ++ f.elseParams) _) htake

lemma drop_params (ps : List NumType) (elseParams : List StackType) :
    (ps.reverse.map num ++ elseParams).drop ps.length = elseParams := by
  simp

lemma else_ne_then : LabelKind.else ≠ .then := fun h => nomatch h

lemma readEnd_of_ne_then {s : OpIter} (hkind : g.kind ≠ .then)
    (hcheck : s.checkStackAtEndOfBlock env = some (g.state stack p)) :
    s.readEnd env = some (g.state stack p) := by
  unfold readEnd
  rw [hcheck]
  exact if_neg hkind

lemma readEnd_of_check_none {s : OpIter} (hcheck : s.checkStackAtEndOfBlock env = none) : s.readEnd env = none := by
  unfold readEnd
  rw [hcheck]
  rfl

lemma readElse_of_check_none {s : OpIter} (hcheck : s.checkStackAtEndOfBlock env = none) : s.readElse env = none := by
  unfold readElse
  simp [hcheck]

variable {elseParams : List StackType} (hkind : g.kind = .then)
  (htype : g.type = ⟨ps.map .num, rs.map .num⟩)
  (helse : g.elseParams = ps.reverse.map num ++ elseParams)

include hkind htype helse

lemma readEnd_then {s : OpIter} (hcheck : s.checkStackAtEndOfBlock env = some (g.state stack p)) :
    s.readEnd env = if ps = rs then
      some ((⟨g.below, elseParams, .then, g.type, g.outer⟩ : Frame).state stack p) else none := by
  unfold readEnd
  rw [hcheck]
  show (if g.kind = .then then if g.type.params ≠ g.type.results then none
    else some (dropElseParams g.type.params.length (g.state stack p)) else _) = _
  rw [if_pos hkind, htype]
  show (if ps.map ValType.num ≠ rs.map ValType.num then none
    else some (dropElseParams (ps.map ValType.num).length (g.state stack p))) = _
  by_cases heq : ps = rs
  · rw [if_pos heq, if_neg (not_not.2 (congrArg _ heq)), length_map]
    unfold dropElseParams Frame.state Frame.block
    simp [helse, hkind, htype]
  · rw [if_neg heq, if_pos fun h => heq (map_num_injective h)]

/-- The end of a `then` block at its `else`. -/
lemma readElse_then {s : OpIter} {q : Bool} (hback : s.back = some (g.block q))
    (hcheck : s.checkStackAtEndOfBlock env = some (g.state stack p)) :
    s.readElse env = some ((⟨g.below, elseParams, .else, g.type, g.outer⟩ : Frame).state
      (ps.reverse.map .num) false) := by
  have hlength : (ps.reverse.map num).length = ps.length := by
    simp
  unfold readElse
  rw [hback]
  show (if g.kind ≠ .then then none else (s.checkStackAtEndOfBlock env).bind switchToElse) = _
  rw [if_neg (not_not.2 hkind), hcheck]
  show some (OpIter.mk (g.elseParams.take g.type.params.length ++
    (stack ++ g.below).drop ((stack ++ g.below).length - g.below.length))
    (g.elseParams.drop g.type.params.length) (⟨.else, g.type, g.below.length, false⟩ :: g.outer)) = _
  rw [drop_above, helse, htype]
  show some (OpIter.mk ((ps.reverse.map num ++ elseParams).take (ps.map ValType.num).length ++
    _) (List.drop (ps.map ValType.num).length _) _) = _
  rw [length_map, drop_params, take_left' hlength]
  rfl

omit hkind htype helse

/-! ## Blocks as operations -/

/-- The operations of a block from its entry to its end, where `P` says whether what is in it is typed. -/
lemma exact_pushControl {k : OpIter → Option OpIter} {P : Prop} (hk : ∀ rest p,
      (k ((f.inner rest p kind ⟨ps.map .num, rs.map .num⟩ f.elseParams).state
          (ps.reverse.map .num) false) = some (f.state (rs.reverse.map num ++ rest) p) ∧ P) ∨
      (k ((f.inner rest p kind ⟨ps.map .num, rs.map .num⟩ f.elseParams).state
          (ps.reverse.map .num) false) = none ∧ ¬ P)) :
    Exact f (fun s => (s.pushControl env kind ⟨ps.map .num, rs.map .num⟩).bind k) fun ns ns' =>
      P ∧ ∃ below, ns = ps.reverse ++ below ∧ ns' = rs.reverse ++ below := by
  intro stack p hpossible
  rcases pushControl_spec (f := f) env kind ps rs hpossible with
    ⟨hpush, hrest, hmatches⟩ | ⟨hpush, hnone⟩
  · have hbind := congrArg (bind · k) hpush
    rcases hk (stack.drop ps.length) p with ⟨hrun, hP⟩ | ⟨hrun, hP⟩
    · refine .inl ⟨_, p, hbind.trans hrun, possible_map_append hrest, fun ns' => ?_⟩
      rw [matches_map_append]
      constructor
      · rintro ⟨below, rfl, h⟩
        exact ⟨_, (hmatches below).1 h, hP, below, rfl, rfl⟩
      · rintro ⟨_, h, _, below, rfl, rfl⟩
        simp [hmatches, h]
    · exact .inr ⟨hbind.trans hrun, fun _ _ _ h => hP h.1⟩
  · refine .inr ⟨congrArg (bind · k) hpush, ?_⟩
    rintro ns _ h ⟨_, below, rfl, _⟩
    exact hnone below h

variable {body thenBody elseBody : Expr}

lemma exact_enclosed (kind : LabelKind) (hf : Agrees f C) (hkind : kind ≠ .then) {ts : List NumType}
    (htarget : (if kind = .loop then ps.map ValType.num else rs.map .num) = ts.map .num)
    (hbody : SequenceExact (C.label ts) body) :
    Exact f (fun s => (s.pushControl C.env kind ⟨ps.map .num, rs.map .num⟩).bind fun s =>
        (run C.env C.locals body.ops s).bind fun s => (s.readEnd C.env).map popEnd) fun ns ns' =>
      Typed (C.label ts) body ps rs ∧ ∃ below, ns = ps.reverse ++ below ∧ ns' = rs.reverse ++ below := by
  refine exact_pushControl fun rest p => ?_
  have hinner : Agrees (f.inner rest p kind ⟨ps.map .num, rs.map .num⟩ f.elseParams) (C.label ts) := hf.inner htarget
  rcases body_spec ps rs hbody hinner rfl with
    ⟨stack, q, hrun, hcheck, htyped⟩ | ⟨hfail, htyped⟩
  · refine .inl ⟨(congrArg (Option.bind · _) hrun).trans ?_, htyped⟩
    show (Option.map popEnd (readEnd C.env _)) = _
    rw [readEnd_of_ne_then hkind hcheck]
    exact congrArg some (popEnd_inner f rest p q kind _)
  · refine .inr ⟨hfail _ fun s hcheck => ?_, htyped⟩
    rw [readEnd_of_check_none hcheck]
    rfl

/-- A `then` block without `else`, whose parameters have to be its results. -/
lemma exact_ifThen (ps : List NumType) (hf : Agrees f C) (hthen : SequenceExact (C.label rs) thenBody) :
    Exact f (fun s => (s.pushControl C.env .then ⟨ps.map .num, rs.map .num⟩).bind fun s =>
        (run C.env C.locals thenBody.ops (s.saveElseParams ps.length)).bind fun s =>
          (s.readEnd C.env).map popEnd) fun ns ns' =>
      (Typed (C.label rs) thenBody ps rs ∧ Typed (C.label rs) .nil ps rs) ∧
        ∃ below, ns = ps.reverse ++ below ∧ ns' = rs.reverse ++ below := by
  refine exact_pushControl fun rest p => ?_
  have hnil : Typed (C.label rs) .nil ps rs ↔ ps = rs := ⟨fun h => by cases h with | nil => rfl, fun h => h ▸ .nil ps⟩
  rw [hnil, saveElseParams_inner]
  have hinner : Agrees (f.inner rest p .then ⟨ps.map .num, rs.map .num⟩
      (ps.reverse.map StackType.num ++ f.elseParams)) (C.label rs) := hf.inner rfl
  rcases body_spec ps rs hthen hinner rfl with
    ⟨stack, q, hrun, hcheck, htyped⟩ | ⟨hfail, htyped⟩
  · rw [hrun]
    show (Option.map popEnd (readEnd C.env _) = _ ∧ _) ∨ (Option.map popEnd (readEnd C.env _) = _ ∧ _)
    rw [readEnd_then rfl rfl rfl hcheck]
    by_cases heq : ps = rs
    · rw [if_pos heq]
      exact .inl ⟨congrArg some (popEnd_inner f rest p q .then _), htyped, heq⟩
    · simp [heq]
  · refine .inr ⟨hfail _ fun s hcheck => ?_, fun h => htyped h.1⟩
    rw [readEnd_of_check_none hcheck]
    rfl

lemma exact_ifElse (ps : List NumType) (hf : Agrees f C) (hthen : SequenceExact (C.label rs) thenBody)
    (helse : SequenceExact (C.label rs) elseBody) :
    Exact f (fun s => (s.pushControl C.env .then ⟨ps.map .num, rs.map .num⟩).bind fun s =>
        (run C.env C.locals thenBody.ops (s.saveElseParams ps.length)).bind fun s =>
          (s.readElse C.env).bind fun s => (run C.env C.locals elseBody.ops s).bind fun s =>
            (s.readEnd C.env).map popEnd) fun ns ns' =>
      (Typed (C.label rs) thenBody ps rs ∧ Typed (C.label rs) elseBody ps rs) ∧
        ∃ below, ns = ps.reverse ++ below ∧ ns' = rs.reverse ++ below := by
  refine exact_pushControl fun rest p => ?_
  rw [saveElseParams_inner]
  have hinner : Agrees (f.inner rest p .then ⟨ps.map .num, rs.map .num⟩
      (ps.reverse.map StackType.num ++ f.elseParams)) (C.label rs) := hf.inner rfl
  have hinner' : Agrees (f.inner rest p .else ⟨ps.map .num, rs.map .num⟩ f.elseParams) (C.label rs) := hf.inner rfl
  rcases body_spec ps rs hthen hinner rfl with
    ⟨stack, q, hrun, hcheck, htyped⟩ | ⟨hfail, htyped⟩
  · rw [hrun]
    show (Option.bind (readElse C.env _) _ = _ ∧ _) ∨ (Option.bind (readElse C.env _) _ = _ ∧ _)
    rw [readElse_then rfl rfl rfl rfl hcheck]
    rcases body_spec ps rs helse hinner' rfl with
      ⟨stack', q', hrun', hcheck', htyped'⟩ | ⟨hfail', htyped'⟩
    · refine .inl ⟨(congrArg (Option.bind · _) hrun').trans ?_, htyped, htyped'⟩
      show (Option.map popEnd (readEnd C.env _)) = _
      rw [readEnd_of_ne_then else_ne_then hcheck']
      exact congrArg some (popEnd_inner f rest p q' .else _)
    · refine .inr ⟨hfail' _ fun s hcheck => ?_, fun h => htyped' h.2⟩
      rw [readEnd_of_check_none hcheck]
      rfl
  · refine .inr ⟨hfail _ fun s hcheck => ?_, fun h => htyped h.1⟩
    rw [readElse_of_check_none hcheck]
    rfl

/-! ## Block types -/

/-- A block type of numeric types is read as what it is in the rules. -/
lemma readBlockType_eq_some {t : BlockTypeCode} :
    readBlockType env t = some ⟨ps.map .num, rs.map .num⟩ ↔ BlockTyped env t ps rs := by
  constructor
  · intro htype
    cases t with
    | void =>
      obtain ⟨hps, hrs⟩ := BlockType.mk.inj (some.inj htype)
      rw [map_eq_nil_iff.1 hps.symm, map_eq_nil_iff.1 hrs.symm]
      exact .void
    | single t =>
      change (if env.readValType t = true then some _ else none) = _ at htype
      by_cases ht : env.readValType t = true
      · rw [if_pos ht] at htype
        obtain ⟨hps, hrs⟩ := BlockType.mk.inj (some.inj htype)
        obtain ⟨n, tail, rfl, rfl, htail⟩ := map_eq_cons_iff.1 hrs.symm
        rw [map_eq_nil_iff.1 hps.symm, map_eq_nil_iff.1 htail]
        exact .single n
      · rw [if_neg ht] at htype
        cases htype
    | index x =>
      change (if env.multiValuesEnabled = true then _ else none) = _ at htype
      by_cases henabled : env.multiValuesEnabled = true
      · rw [if_pos henabled] at htype
        cases hx : env.types[x]? with
        | none =>
          simp [hx] at htype
        | some typeDef =>
          rw [hx] at htype
          cases typeDef with
          | struct fields => cases htype
          | func type =>
            obtain ⟨hps, hrs⟩ := BlockType.mk.inj (some.inj htype)
            refine .index henabled (hx.trans ?_)
            unfold numFuncType
            rw [← hps, ← hrs]
      · rw [if_neg henabled] at htype
        cases htype
  · intro h
    cases h with
    | void => rfl
    | single t => rfl
    | index henabled hx =>
      show (if env.multiValuesEnabled = true then _ else none) = _
      rw [if_pos henabled, hx]
      rfl

/-- If the types that a block type refers to are numeric, it has one typing or none. -/
lemma readBlockType_spec {t : BlockTypeCode} (hnum : ∀ type, readBlockType env t = some type →
      (∀ t ∈ type.params, t.IsNumeric) ∧ ∀ t ∈ type.results, t.IsNumeric) :
    (∃ ps rs, readBlockType env t = some ⟨ps.map .num, rs.map .num⟩ ∧
      ∀ ps' rs', BlockTyped env t ps' rs' ↔ ps' = ps ∧ rs' = rs) ∨
    (readBlockType env t = none ∧ ∀ ps rs, ¬ BlockTyped env t ps rs) := by
  cases htype : readBlockType env t with
  | none =>
    refine .inr ⟨rfl, fun ps rs h => ?_⟩
    have heq := htype.symm.trans (readBlockType_eq_some.2 h)
    cases heq
  | some type =>
    obtain ⟨hparams, hresults⟩ := hnum type htype
    obtain ⟨ps, hps⟩ := exists_map_num hparams
    obtain ⟨rs, hrs⟩ := exists_map_num hresults
    have heq : some type = some ⟨ps.map .num, rs.map .num⟩ := by
      rw [← hps, ← hrs]
    refine .inl ⟨ps, rs, heq, fun ps' rs' => ?_⟩
    rw [← readBlockType_eq_some, htype, heq]
    constructor
    · intro h
      obtain ⟨hps, hrs⟩ := BlockType.mk.inj (some.inj h)
      exact ⟨(map_num_injective hps).symm, (map_num_injective hrs).symm⟩
    · rintro ⟨rfl, rfl⟩
      rfl

end SpiderMonkey.Wasm
