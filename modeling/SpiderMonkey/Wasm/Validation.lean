import SpiderMonkey.Wasm.Nesting

/-!
# The bodies over the numeric types that `OpIter` accepts

They are the typable ones whose tables of branches are not too large, and in every state on the way the
stacks are those of the open blocks.
-/

namespace SpiderMonkey.Wasm

open OpIter List Option StackType

variable {C : Context} {env : ModuleEnvironment} {locals : List ValType} {s s' : OpIter}

/-! ## The stacks of the open blocks -/

/-- The stacks are made of a part for each open block, the innermost first. -/
inductive Layers : List Control → List StackType → List StackType → Prop
  | nil (stack : List StackType) : Layers [] stack []
  | block {f : Frame} {stack elseParams : List StackType} {p : Bool} {ps rs : List NumType}
      (htype : f.type = ⟨ps.map .num, rs.map .num⟩) (hpossible : Possible stack p)
      (helse : f.elseParams = (if f.kind = .then then ps.reverse.map num else []) ++ elseParams)
      (houter : Layers f.outer f.below elseParams) :
      Layers (f.block p :: f.outer) (stack ++ f.below) f.elseParams

def OpIter.Layered (s : OpIter) : Prop := Layers s.controlStack s.valueStack s.elseParamStack

lemma Layers.append {blocks : List Control} {stack elseParams : List StackType}
    (h : Layers blocks stack elseParams) (ns : List NumType) :
    Layers blocks (ns.map num ++ stack) elseParams := by
  cases h with
  | nil => exact .nil _
  | block htype hpossible helse houter =>
    rw [← append_assoc]
    exact .block htype (possible_map_append hpossible) helse houter

lemma OpIter.Layered.exists_frame (h : s.Layered) (hs : s.controlStack ≠ []) :
    ∃ (f : Frame) (stack : List StackType) (p : Bool) (ps rs : List NumType)
      (elseParams : List StackType), s = f.state stack p ∧ Possible stack p ∧
      f.type = ⟨ps.map .num, rs.map .num⟩ ∧
      f.elseParams = (if f.kind = .then then ps.reverse.map num else []) ++ elseParams ∧
      Layers f.outer f.below elseParams := by
  obtain ⟨values, elseParams, blocks⟩ := s
  cases h with
  | nil => exact absurd rfl hs
  | @block f stack elseParams p ps rs htype hpossible helse houter =>
    exact ⟨f, stack, p, ps, rs, elseParams, rfl, hpossible, htype, helse, houter⟩

lemma branchTargetType_num (block : Control) {ps rs : List NumType} (htype : block.type = ⟨ps.map .num, rs.map .num⟩) :
    block.branchTargetType = (if block.kind = .loop then ps else rs).map .num := by
  unfold Control.branchTargetType
  rw [htype]
  exact (apply_ite (List.map ValType.num) (block.kind = .loop) ps rs).symm

/-- The open blocks are those of some context. -/
lemma Layers.exists_context {blocks : List Control} {stack elseParams : List StackType}
    (h : Layers blocks stack elseParams) :
    (∃ labels : List (List NumType), blocks.map Control.branchTargetType = labels.map (List.map .num)) ∧
    (blocks ≠ [] → ∃ result : List NumType,
      blocks.getLast?.map (fun body => body.type.results) = some (result.map .num)) := by
  induction h with
  | nil => exact ⟨⟨[], rfl⟩, fun h => absurd rfl h⟩
  | @block f stack elseParams p ps rs htype hpossible helse houter ih =>
    obtain ⟨⟨labels, hlabels⟩, hlast⟩ := ih
    refine ⟨⟨_ :: labels, congrArg₂ List.cons (branchTargetType_num (f.block p) htype)
      hlabels⟩, fun _ => ?_⟩
    cases hblocks : f.outer with
    | nil =>
      refine ⟨rs, ?_⟩
      show some f.type.results = _
      rw [htype]
    | cons block outer =>
      rw [hblocks] at hlast
      rw [getLast?_cons_cons]
      exact hlast (cons_ne_nil _ _)

lemma exists_agrees {f : Frame} {ps rs : List NumType} {elseParams : List StackType}
    (env : ModuleEnvironment) (locals : List ValType)
    (htype : f.type = ⟨ps.map .num, rs.map .num⟩) (houter : Layers f.outer f.below elseParams) :
    ∃ C : Context, C.env = env ∧ C.locals = locals ∧ Agrees f C := by
  have hinner : Layers (f.block false :: f.outer) ([] ++ f.below)
      ((if f.kind = .then then ps.reverse.map num else []) ++ elseParams) :=
    Layers.block (f := ⟨f.below, (if f.kind = .then then ps.reverse.map num else []) ++ elseParams,
      f.kind, f.type, f.outer⟩) htype possible_nil rfl houter
  obtain ⟨⟨labels, hlabels⟩, hlast⟩ := hinner.exists_context
  obtain ⟨result, hresult⟩ := hlast (cons_ne_nil _ _)
  exact ⟨⟨env, locals, labels, result⟩, rfl, rfl, hlabels, hresult⟩

/-! ## One operation -/

lemma tableFits_of_step {o : Op} (h : OpIter.step env locals s o = some s') : o.TableFits := by
  cases o with
  | brTable ls l =>
    refine Nat.le_of_not_lt fun hlong => ?_
    have hnone : OpIter.step env locals s (.brTable ls l) = none := if_pos hlong
    simp [hnone] at h
  | _ => trivial

lemma layered_inner {f : Frame} {rest elseParams : List StackType} {p : Bool} {ps rs : List NumType}
    (ps' rs' : List NumType) (kind : LabelKind) (hrest : Possible rest p) (htype : f.type = ⟨ps.map .num, rs.map .num⟩)
    (helse : f.elseParams = (if f.kind = .then then ps.reverse.map num else []) ++ elseParams)
    (houter : Layers f.outer f.below elseParams) :
    ((f.inner rest p kind ⟨ps'.map .num, rs'.map .num⟩
      ((if kind = .then then ps'.reverse.map num else []) ++ f.elseParams)).state
        (ps'.reverse.map .num) false).Layered :=
  Layers.block (f := f.inner rest p kind ⟨ps'.map .num, rs'.map .num⟩ _) rfl ⟨_, matches_map.2 rfl⟩ rfl
    (Layers.block htype hrest helse houter)

lemma layered_pushControl {f : Frame} {stack elseParams : List StackType} {p : Bool}
    {ps rs : List NumType} {kind : LabelKind} {type : BlockType} (hpossible : Possible stack p)
    (htype : f.type = ⟨ps.map .num, rs.map .num⟩)
    (helse : f.elseParams = (if f.kind = .then then ps.reverse.map num else []) ++ elseParams)
    (houter : Layers f.outer f.below elseParams)
    (hparams : ∀ t ∈ type.params, t.IsNumeric) (hresults : ∀ t ∈ type.results, t.IsNumeric)
    (h : (f.state stack p).pushControl env kind type = some s') :
    (kind ≠ .then → s'.Layered) ∧ (kind = .then → (s'.saveElseParams type.params.length).Layered) := by
  obtain ⟨ps', hps⟩ := exists_map_num hparams
  obtain ⟨rs', hrs⟩ := exists_map_num hresults
  obtain ⟨params, results⟩ := type
  change params = _ at hps
  change results = _ at hrs
  subst hps hrs
  rcases pushControl_spec (f := f) env kind ps' rs' hpossible with ⟨hpush, hrest, _⟩ | ⟨hpush, _⟩
  · have hs' := some.inj (h.symm.trans hpush)
    have hlayered := layered_inner ps' rs' kind hrest htype helse houter
    rw [hs']
    constructor
    · intro hkind
      rw [if_neg hkind] at hlayered
      exact hlayered
    · rintro rfl
      rw [if_pos rfl] at hlayered
      show (saveElseParams (ps'.map ValType.num).length _).Layered
      rw [length_map, saveElseParams_inner]
      exact hlayered
  · rw [hpush] at h
    cases h

/-- After the end of a block its results are on what was below it. -/
def OpIter.EndedBlock (s s' : OpIter) : Prop :=
  ∃ block outer, s.controlStack = block :: outer ∧ s'.controlStack = outer ∧
    s'.valueStack = block.type.results.reverse.map val ++
      s.valueStack.drop (s.valueStack.length - block.valueStackBase)

lemma layered_end (hs : s.controlStack ≠ []) (h : s.Layered) (hend : s.readEnd env = some s') :
    s'.popEnd.Layered ∧ s.EndedBlock s'.popEnd := by
  obtain ⟨f, stack, p, ps, rs, elseParams, rfl, hpossible, htype, helse, houter⟩ := h.exists_frame hs
  have hresults : f.type.results = rs.map .num := by rw [htype]
  have hended : ∀ elseParams' : List StackType, (f.state stack p).EndedBlock
      ⟨rs.reverse.map num ++ f.below, elseParams', f.outer⟩ := by
    refine fun elseParams' => ⟨f.block p, f.outer, rfl, rfl, ?_⟩
    show _ = f.type.results.reverse.map val ++
      (stack ++ f.below).drop ((stack ++ f.below).length - f.below.length)
    simp [hresults]
  rcases checkStackAtEndOfBlock_spec (g := f) env hresults hpossible with ⟨hcheck, _⟩ | ⟨hcheck, _⟩
  · split_ifs at helse with hkind
    · rw [readEnd_then hkind htype helse hcheck] at hend
      by_cases heq : ps = rs
      · rw [if_pos heq] at hend
        rw [← some.inj hend]
        exact ⟨houter.append rs.reverse, hended elseParams⟩
      · rw [if_neg heq] at hend
        cases hend
    · rw [readEnd_of_ne_then hkind hcheck] at hend
      rw [← some.inj hend]
      refine ⟨?_, hended f.elseParams⟩
      show Layers f.outer (rs.reverse.map num ++ f.below) f.elseParams
      rw [helse]
      exact houter.append rs.reverse
  · rw [readEnd_of_check_none hcheck] at hend
    cases hend

lemma layered_else (hs : s.controlStack ≠ []) (h : s.Layered) (helse : s.readElse env = some s') : s'.Layered := by
  obtain ⟨f, stack, p, ps, rs, elseParams, rfl, hpossible, htype, hparams, houter⟩ := h.exists_frame hs
  have hresults : f.type.results = rs.map .num := by rw [htype]
  rcases checkStackAtEndOfBlock_spec (g := f) env hresults hpossible with ⟨hcheck, _⟩ | ⟨hcheck, _⟩
  · by_cases hkind : f.kind = .then
    · rw [if_pos hkind] at hparams
      rw [readElse_then hkind htype hparams rfl hcheck] at helse
      rw [← some.inj helse]
      exact Layers.block (f := ⟨f.below, elseParams, .else, f.type, f.outer⟩) htype
        ⟨_, matches_map.2 rfl⟩ rfl houter
    · unfold readElse at helse
      change (if f.kind ≠ .then then none else _) = some s' at helse
      simp [if_pos hkind] at helse
  · rw [readElse_of_check_none hcheck] at helse
    cases helse

lemma layered_step {o : Op} (hnum : o.IsNumeric env locals) (hs : s.controlStack ≠ [])
    (h : s.Layered) (hstep : OpIter.step env locals s o = some s') : s'.Layered := by
  obtain ⟨f, stack, p, ps, rs, elseParams, rfl, hpossible, htype, helse, houter⟩ := h.exists_frame hs
  by_cases hplain : o.IsPlain
  · obtain ⟨C, rfl, rfl, hf⟩ := exists_agrees env locals htype houter
    rcases exact_step hf hplain hnum (tableFits_of_step hstep) stack p hpossible with
      ⟨stack', p', hop, hpossible', _⟩ | ⟨hop, _⟩
    · rw [← some.inj (hop.symm.trans hstep)]
      exact Layers.block htype hpossible' helse houter
    · have hnone := hstep.symm.trans hop
      cases hnone
  · cases o with
    | block t =>
      obtain ⟨type, htype', hpush⟩ := bind_eq_some_iff.1 hstep
      obtain ⟨hparams, hresults⟩ := hnum type htype'
      exact (layered_pushControl hpossible htype helse houter hparams hresults hpush).1
        fun h => nomatch h
    | loop t =>
      obtain ⟨type, htype', hpush⟩ := bind_eq_some_iff.1 hstep
      obtain ⟨hparams, hresults⟩ := hnum type htype'
      exact (layered_pushControl hpossible htype helse houter hparams hresults hpush).1
        fun h => nomatch h
    | «if» t =>
      obtain ⟨type, htype', hpop⟩ := bind_eq_some_iff.1 hstep
      obtain ⟨s₁, hpop, hpush⟩ := bind_eq_some_iff.1 hpop
      obtain ⟨s₂, hpush, hsave⟩ := bind_eq_some_iff.1 hpush
      obtain ⟨hparams, hresults⟩ := hnum type htype'
      rw [← some.inj hsave]
      rcases exact_popWithType (f := f) env .i32 stack p hpossible with
        ⟨stack', p', hop, hpossible', _⟩ | ⟨hop, _⟩
      · rw [← some.inj (hop.symm.trans hpop)] at hpush
        exact (layered_pushControl hpossible' htype helse houter hparams hresults hpush).2 rfl
      · rw [hop] at hpop
        cases hpop
    | «else» => exact layered_else hs h hstep
    | «end» =>
      obtain ⟨s₁, hend, rfl⟩ := map_eq_some_iff.1 hstep
      exact (layered_end hs h hend).1
    | _ => exact absurd trivial hplain

lemma layered_run {ops : List Op} (hnum : ∀ o ∈ ops, o.IsNumeric env locals) (h : s.Layered)
    (hrun : run env locals ops s = some s') : s'.Layered := by
  induction ops generalizing s with
  | nil =>
    rw [← some.inj hrun]
    exact h
  | cons o ops ih =>
    by_cases hs : s.controlStack = []
    · have hnone : run env locals (o :: ops) s = none := if_pos hs
      simp [hnone] at hrun
    · rw [run_cons_of_ne_nil hs] at hrun
      obtain ⟨s₁, hstep, hrun⟩ := bind_eq_some_iff.1 hrun
      exact ih (fun o ho => hnum o (mem_cons_of_mem _ ho))
        (layered_step (hnum o mem_cons_self) hs h hstep) hrun

/-! ## What the parts say -/

/-- The base of the innermost block is on the stack, and the parameters are kept of the open `then`
blocks and of no others. -/
structure OpIter.Balanced (s : OpIter) : Prop where
  base_le : ∀ block, s.back = some block → block.valueStackBase ≤ s.valueStack.length
  elseParamStack : s.elseParamStack = s.controlStack.flatMap fun block =>
    if block.kind = .then then block.type.params.reverse.map .val else []

lemma Layers.elseParams_eq {blocks : List Control} {stack elseParams : List StackType}
    (h : Layers blocks stack elseParams) : elseParams = blocks.flatMap fun block =>
      if block.kind = .then then block.type.params.reverse.map .val else [] := by
  induction h with
  | nil => rfl
  | @block f stack elseParams p ps rs htype hpossible helse houter ih =>
    rw [helse, flatMap_cons, ← ih]
    show _ = (if f.kind = .then then f.type.params.reverse.map val else []) ++ elseParams
    rw [htype, ← map_reverse, List.map_map]
    rfl

lemma OpIter.Layered.balanced (h : s.Layered) : s.Balanced where
  base_le := by
    intro block hback
    have hs : s.controlStack ≠ [] := fun hempty => by
      unfold back at hback
      simp [hempty] at hback
    obtain ⟨f, stack, p, _, _, _, rfl, _⟩ := h.exists_frame hs
    rw [← some.inj hback]
    show f.below.length ≤ (stack ++ f.below).length
    simp
  elseParamStack := h.elseParams_eq

/-! ## Bodies -/

def bodyFrame (results : List NumType) : Frame := ⟨[], [], .body, ⟨[], results.map .num⟩, []⟩

lemma layered_start (results : List NumType) : (start (results.map .num)).Layered :=
  Layers.block (f := bodyFrame results) (p := false)
    (show (bodyFrame results).type = ⟨[].map .num, results.map .num⟩ from rfl) possible_nil rfl (.nil [])

lemma bodyFrame_ne_then (results : List NumType) : (bodyFrame results).kind ≠ .then :=
  fun h => nomatch (show LabelKind.body = .then from h)

lemma agrees_body (env : ModuleEnvironment) (locals : List ValType) (results : List NumType) :
    Agrees (bodyFrame results) (bodyContext env locals results) := ⟨rfl, rfl⟩

/-- The operations of a sequence are accepted if the sequence has the type of the function. -/
lemma accepts_sequence {e : Expr} {results : List NumType} (hwf : e.IsWellFormed) (he : e.IsAdmissible env locals) :
    Accepts env locals (results.map .num) (e.ops ++ [Op.end]) ↔
      Typed (bodyContext env locals results) e [] results := by
  have hexact : SequenceExact (bodyContext env locals results) e := sequence_exact hwf he
  have hrun : run env locals (e.ops ++ [Op.end]) (start (results.map .num)) =
      (run env locals e.ops ((bodyFrame results).state [] false)).bind fun s =>
        (s.readEnd env).bind fun s => some s.popEnd := by
    rw [run_append]
    exact bind_congr fun s _ => run_end [] s
  unfold Accepts
  rw [hrun]
  rcases body_spec (C := ⟨env, locals, [], results⟩) [] results hexact
      (agrees_body env locals results) rfl with
    ⟨stack, p, hops, hcheck, htyped⟩ | ⟨hfail, htyped⟩
  · refine iff_of_true ⟨(bodyFrame results).state (results.reverse.map .num) p |>.popEnd, ?_, rfl⟩ htyped
    refine (congrArg (bind · _) hops).trans ?_
    show (readEnd env _).bind _ = _
    rw [readEnd_of_ne_then (bodyFrame_ne_then results) hcheck]
    rfl
  · refine iff_of_false (fun ⟨s, hs, _⟩ => ?_) htyped
    have hnone := hfail (fun s => (s.readEnd env).bind fun s => some s.popEnd) fun s hcheck => by
      rw [readEnd_of_check_none hcheck]
      rfl
    have heq := hs.symm.trans hnone
    cases heq

lemma tableFits_of_run {ops : List Op} (hrun : run env locals ops s = some s') : ∀ o ∈ ops, o.TableFits := by
  induction ops generalizing s with
  | nil => exact fun o ho => (not_mem_nil ho).elim
  | cons o ops ih =>
    by_cases hs : s.controlStack = []
    · have hnone : run env locals (o :: ops) s = none := if_pos hs
      simp [hnone] at hrun
    · rw [run_cons_of_ne_nil hs] at hrun
      obtain ⟨s₁, hstep, hrun⟩ := bind_eq_some_iff.1 hrun
      exact forall_mem_cons.2 ⟨tableFits_of_step hstep, ih hrun⟩

lemma OpTyped.isPlain {o : Op} {ps rs : List NumType} (h : OpTyped C o ps rs) : o.IsPlain := by
  cases h <;> trivial

lemma Typed.isWellFormed {e : Expr} {ts ts' : List NumType} (h : Typed C e ts ts') : e.IsWellFormed := by
  induction h with
  | nil => trivial
  | plain hop _ ih => exact ⟨hop.isPlain, ih⟩
  | block _ _ _ ihbody ihrest => exact ⟨ihbody, ihrest⟩
  | loop _ _ _ ihbody ihrest => exact ⟨ihbody, ihrest⟩
  | ifThen _ _ _ _ ihthen _ ihrest => exact ⟨ihthen, ihrest⟩
  | ifElse _ _ _ _ ihthen ihelse ihrest => exact ⟨ihthen, ihelse, ihrest⟩

/-- Over the numeric types `OpIter` accepts the bodies that are typable and have no table of more than
`MaxBrTableElems` targets.  In every state on the way the stacks are those of the open blocks. -/
theorem accepts_iff {results : List NumType} {body : List Op} (hbody : ∀ o ∈ body, o.IsNumeric env locals) :
    (Accepts env locals (results.map .num) body ↔ Typable env locals results body ∧ ∀ o ∈ body, o.TableFits) ∧
    ∀ ops s, ops <+: body → run env locals ops (start (results.map .num)) = some s →
      s.Balanced ∧ ∀ s', OpIter.step env locals s .end = some s' → s.EndedBlock s' := by
  constructor
  · constructor
    · intro h
      obtain ⟨e, hwf, rfl⟩ := exists_expr h
      obtain ⟨s, hrun, _⟩ := id h
      have hfits := tableFits_of_run hrun
      have he : e.IsAdmissible env locals := fun o ho =>
        ⟨hbody o (mem_append_left _ ho), hfits o (mem_append_left _ ho)⟩
      exact ⟨⟨e, rfl, (accepts_sequence hwf he).1 h⟩, hfits⟩
    · rintro ⟨⟨e, rfl, htyped⟩, hfits⟩
      have he : e.IsAdmissible env locals := fun o ho =>
        ⟨hbody o (mem_append_left _ ho), hfits o (mem_append_left _ ho)⟩
      exact (accepts_sequence htyped.isWellFormed he).2 htyped
  · intro ops s hops hrun
    have hlayered := layered_run (fun o ho => hbody o (hops.subset ho)) (layered_start results) hrun
    refine ⟨hlayered.balanced, fun s' hstep => ?_⟩
    obtain ⟨s₁, hend, rfl⟩ := map_eq_some_iff.1 hstep
    have hs : s.controlStack ≠ [] := fun hempty => by
      simp [readEnd_of_check_none (checkStackAtEndOfBlock_of_nil hempty)] at hend
    exact (layered_end hs hlayered hend).2

/-- A module without types and functions. -/
def emptyEnv : ModuleEnvironment := ⟨[], [], false, false, false⟩

/-- A block that is left with a result before its end. -/
def branchBody : List Op := [.block (.single .i32), .const .i32, .br 0, .end, .end]

theorem accepts_iff_branchBody : (∀ o ∈ branchBody, o.IsNumeric emptyEnv []) ∧
    (Accepts emptyEnv [] ([NumType.i32].map .num) branchBody ↔
      Typable emptyEnv [] [.i32] branchBody ∧ ∀ o ∈ branchBody, o.TableFits) := by
  have hbody : ∀ o ∈ branchBody, o.IsNumeric emptyEnv [] := by
    intro o ho
    rcases mem_cons.1 ho with rfl | ho
    · intro type htype
      rw [← some.inj htype]
      exact ⟨fun t ht => (not_mem_nil ht).elim, fun t ht => ⟨.i32, mem_singleton.1 ht⟩⟩
    · rcases mem_cons.1 ho with rfl | ho
      · trivial
      · rcases mem_cons.1 ho with rfl | ho
        · trivial
        · rcases mem_pair.1 ho with rfl | rfl <;> trivial
  have h : (Accepts emptyEnv [] ([NumType.i32].map .num) branchBody ↔ _) ∧ _ := accepts_iff hbody
  exact ⟨hbody, h.1⟩

/-- A body with a table that has one target too many. -/
def largeTableBody : List Op :=
  [.const .i32, .brTable (List.replicate (MaxBrTableElems + 1) 0) 0, .end]

theorem not_accepts_largeTableBody :
    ¬ (Accepts emptyEnv [] [] largeTableBody ↔ Typable emptyEnv [] [] largeTableBody) := by
  intro h
  have htable : ∀ l' ∈ List.replicate (MaxBrTableElems + 1) 0 ++ [0],
      (bodyContext emptyEnv [] []).labels[l']? = some [] := by
    intro l' hl'
    have hzero : l' = 0 := by
      rcases mem_append.1 hl' with hl' | hl'
      · exact eq_of_mem_replicate hl'
      · exact mem_singleton.1 hl'
    rw [hzero]
    rfl
  have htyped : Typed (bodyContext emptyEnv [] [])
      (.plain (.const .i32) (.plain (.brTable (List.replicate (MaxBrTableElems + 1) 0) 0) .nil)) [] [] :=
    @Typed.plain _ _ _ [] [] [.i32] [] (.const .i32)
      (@Typed.plain _ _ _ [] [.i32] [] [] (.brTable htable [] []) (.nil []))
  obtain ⟨s, hrun, _⟩ := h.2 ⟨_, rfl, htyped⟩
  have hfits := tableFits_of_run hrun _ (mem_cons_of_mem _ mem_cons_self)
  have hle : (List.replicate (MaxBrTableElems + 1) 0).length ≤ MaxBrTableElems := hfits
  rw [length_replicate] at hle
  exact absurd hle (Nat.not_succ_le_self _)

end SpiderMonkey.Wasm
