import SpiderMonkey.Wasm.PathOps

/-!
# Recorded types at joins

A branch delivers values of the declared types, or of subtypes, to a place where `OpIter` may have recorded
the types of what was last on the stack before it.  If at every loop that is entered and at every end of a
block the recorded types are the declared ones, then the types of the values on every path are subtypes of
the recorded types (`recorded_types_sound`); otherwise they need not be.
-/

namespace SpiderMonkey.Wasm

open OpIter ModuleEnvironment List Option

/-! ## Bodies -/

/-- The body of a function, with what it is validated against. -/
structure Body where
  env : ModuleEnvironment
  locals : List ValType
  results : List ValType
  ops : List Op

namespace Body

open Option

variable (B : Body)

def Accepted : Prop := Accepts B.env B.locals B.results B.ops

/-- The state of `OpIter` before these operations, which are the last of the body. -/
def At (ops : List Op) (s : OpIter) : Prop :=
  ∃ pre, B.ops = pre ++ ops ∧ run B.env B.locals pre (start B.results) = some s

/-- Where values come together from several places, the recorded types are the declared ones: at the
entry of a loop and at the end of a block. -/
def JoinsDeclared : Prop :=
  (∀ t rest s, B.At (.loop t :: rest) s → ∀ type, readBlockType B.env t = some type → s.Records type.params) ∧
  ∀ rest s, B.At (.end :: rest) s → ∀ block, s.back = some block → block.kind ≠ .loop →
    block.kind ≠ .body → s.Records block.type.results

variable {B} {ops rest : List Op} {s s' : OpIter} {o : Op}

lemma At.run (haccept : B.Accepted) (h : B.At ops s) :
    ∃ s', OpIter.run B.env B.locals ops s = some s' ∧ s'.controlStack = [] := by
  obtain ⟨pre, hops, hrun⟩ := h
  obtain ⟨s', hs', hempty⟩ := haccept
  rw [hops, run_append, hrun] at hs'
  exact ⟨s', hs', hempty⟩

lemma At.append {ops' : List Op} (h : B.At (ops ++ ops') s)
    (hrun : OpIter.run B.env B.locals ops s = some s') : B.At ops' s' := by
  obtain ⟨pre, hops, hpre⟩ := h
  refine ⟨pre ++ ops, by simp [hops], ?_⟩
  rw [run_append, hpre]
  exact hrun

lemma At.next (haccept : B.Accepted) (h : B.At (o :: rest) s) :
    ∃ s', s.controlStack ≠ [] ∧ OpIter.step B.env B.locals s o = some s' ∧ B.At rest s' := by
  obtain ⟨s₁, hrun, _⟩ := h.run haccept
  by_cases hs : s.controlStack = []
  · have hnone : OpIter.run B.env B.locals (o :: rest) s = none := if_pos hs
    simp [hnone] at hrun
  · rw [run_cons_of_ne_nil hs] at hrun
    obtain ⟨s', hstep, _⟩ := bind_eq_some_iff.1 hrun
    refine ⟨s', hs, hstep, At.append (show B.At ([o] ++ rest) s from h) ?_⟩
    rw [run_cons_of_ne_nil hs, hstep]
    rfl

lemma At.eq_nil (haccept : B.Accepted) (h : B.At ops s) (hs : s.controlStack = []) : ops = [] := by
  cases ops with
  | nil => rfl
  | cons o rest =>
    obtain ⟨_, hne, _⟩ := h.next haccept
    exact absurd hs hne

end Body

/-! ## Labels -/

variable {B : Body} {f g : Frame} {label : Label} {labels : List Label} {c c' : Path} {s s' : OpIter}
  {stack : List StackType}

/-- The types of what a branch to the block passes. -/
def Frame.targetType (f : Frame) : List ValType := (f.block false).branchTargetType

/-- At the target of the label the declared types are recorded. -/
structure Target (B : Body) (label : Label) (f : Frame) : Prop where
  isLoop : label.isLoop = true ↔ f.kind = .loop
  arity : label.arity = f.targetType.length
  height : label.height = f.below.length
  recorded : ∃ elseParams, B.At label.target ⟨f.targetType.reverse.map StackType.val ++ f.below, elseParams,
    if label.isLoop = true then f.block false :: f.outer else f.outer⟩

/-- The labels of a path are those of the open blocks; the code of none of these is unreachable. -/
inductive LabelsMatch (B : Body) : List Label → Frame → Prop
  | body {label : Label} {f : Frame} (htarget : label.target = []) (houter : f.outer = []) : LabelsMatch B [label] f
  | inner {label : Label} {labels : List Label} {f g : Frame} {stack : List StackType}
      (hbelow : f.below = stack ++ g.below) (houter : f.outer = g.block false :: g.outer)
      (htarget : Target B label f) (h : LabelsMatch B labels g) : LabelsMatch B (label :: labels) f

lemma Target.congr (h : Target B label f) (hbelow : g.below = f.below) (houter : g.outer = f.outer)
    (htype : g.type = f.type) (hkind : g.kind = f.kind ∨ f.kind = .then ∧ g.kind = .else) :
    Target B label g := by
  have hloop : g.kind = .loop ↔ f.kind = .loop := by
    rcases hkind with hkind | ⟨hf, hg⟩
    · rw [hkind]
    · simp [hf, hg]
  have htarget : g.targetType = f.targetType := by
    show (if g.kind = .loop then g.type.params else g.type.results) =
      if f.kind = .loop then f.type.params else f.type.results
    rw [htype]
    exact if_congr hloop rfl rfl
  refine ⟨h.isLoop.trans hloop.symm, h.arity.trans (by rw [htarget]), h.height.trans (by rw [hbelow]), ?_⟩
  rw [htarget, hbelow, houter]
  obtain ⟨elseParams, hat⟩ := h.recorded
  refine ⟨elseParams, ?_⟩
  split_ifs at hat ⊢ with hl
  · have hblock : g.block false = f.block false := by
      rcases hkind with hkind | ⟨hf, _⟩
      · show Control.mk g.kind g.type g.below.length false = Control.mk f.kind f.type f.below.length false
        rw [hkind, htype, hbelow]
      · have hf' := h.isLoop.1 hl
        simp [hf] at hf'
    rw [hblock]
    exact hat
  · exact hat

lemma LabelsMatch.congr (h : LabelsMatch B labels f) (hbelow : g.below = f.below)
    (houter : g.outer = f.outer) (htype : g.type = f.type)
    (hkind : g.kind = f.kind ∨ f.kind = .then ∧ g.kind = .else) : LabelsMatch B labels g := by
  cases h with
  | body htarget hnil => exact .body htarget (houter.trans hnil)
  | inner hbelow' houter' htarget h =>
    exact .inner (hbelow.trans hbelow') (houter.trans houter')
      (htarget.congr hbelow houter htype hkind) h

/-- The block of a label: either a branch to it leaves the function, or it is one of the open blocks. -/
lemma LabelsMatch.get (h : LabelsMatch B labels f) {l : ℕ} (hl : labels[l]? = some label) :
    label.target = [] ∨ ∃ g above labels', (f.block false :: f.outer)[l]? = some (g.block false) ∧
      f.below = above ++ g.below ∧ Target B label g ∧ labels.drop l = label :: labels' ∧
      LabelsMatch B (label :: labels') g := by
  induction h generalizing l with
  | body htarget _ =>
    cases l with
    | zero =>
      rw [← some.inj hl]
      exact .inl htarget
    | succ l => cases hl
  | @inner label' labels f g stack hbelow houter htarget h ih =>
    cases l with
    | zero =>
      rw [← some.inj hl]
      exact .inr ⟨f, [], labels, rfl, rfl, htarget, rfl, .inner hbelow houter htarget h⟩
    | succ l =>
      rcases ih hl with hnil | ⟨g', above, labels', hblock, hbelow', htarget', hdrop, h'⟩
      · exact .inl hnil
      · refine .inr ⟨g', stack ++ above, labels', ?_, ?_, htarget', hdrop, h'⟩
        · simp [houter, hblock]
        · simp [hbelow, hbelow']

/-! ## Paths -/

/-- At this point of the path the recorded types cover the values. -/
def Sound (B : Body) (c : Path) : Prop :=
  ∃ f stack, B.At c.rest (Frame.state f stack false) ∧ Covered B.env (stack ++ f.below) c.values ∧
    Below B.env c.locals B.locals ∧ LabelsMatch B c.labels f

/-- The same, as long as the function has not been left. -/
def Reached (B : Body) (c : Path) : Prop := c.rest = [] ∨ Sound B c

lemma sound_outer {rest : List Op} {values locs : List ValType} {elseParams : List StackType}
    (haccept : B.Accepted) (hlabels : LabelsMatch B (label :: labels) f)
    (hat : B.At rest ⟨stack ++ f.below, elseParams, f.outer⟩)
    (hc : Covered B.env (stack ++ f.below) values) (hl : Below B.env locs B.locals) :
    Reached B ⟨rest, values, locs, labels⟩ := by
  cases hlabels with
  | body _ houter => exact .inl (hat.eq_nil haccept houter)
  | @inner _ _ _ g stack' hbelow houter htarget h =>
    refine .inr ⟨⟨g.below, elseParams, g.kind, g.type, g.outer⟩, stack ++ stack', ?_, ?_, hl,
      h.congr rfl rfl rfl (.inl rfl)⟩
    · rw [hbelow, houter, ← append_assoc] at hat
      exact hat
    · rw [hbelow, ← append_assoc] at hc
      exact hc

/-! ## Entering a block -/

variable {values locs : List ValType} {rest : List Op} {kind : LabelKind} {type : BlockType}
  {t : BlockTypeCode} {above : List StackType}

lemma pushControl_covered (h : (f.state stack false).pushControl B.env kind type = some s')
    (hc : Covered B.env (stack ++ f.below) values) :
    ∃ top rest us vs, stack = top ++ rest ∧ top.length = type.params.length ∧
      s' = (f.inner rest false kind type f.elseParams).state top false ∧ values = us ++ vs ∧
      Below B.env us type.params.reverse ∧ Covered B.env (rest ++ f.below) vs ∧
      ((f.state stack false).Records type.params → top = type.params.reverse.map .val) := by
  obtain ⟨s₁, hpop, -⟩ := bind_eq_some_iff.1 h
  obtain ⟨-, top, rest, us, vs, rfl, hlength, hvalues, hus, hc'⟩ := popThenPushType_covered hpop hc
  obtain ⟨top', rfl, hlength', hrecords⟩ := pushControl_frame h
  obtain ⟨s₂, hpop', hentry⟩ := bind_eq_some_iff.1 h
  obtain ⟨rfl, -⟩ := popThenPushType_covered hpop' hc
  have hstack : (top ++ rest) ++ f.below = top' ++ ((top ++ rest).drop type.params.length ++ f.below) :=
    congrArg OpIter.valueStack (some.inj hentry)
  rw [drop_left' hlength, append_assoc] at hstack
  obtain ⟨rfl, -⟩ := append_inj hstack (hlength.trans hlength'.symm)
  rw [drop_left' hlength]
  exact ⟨top, rest, us, vs, rfl, hlength, rfl, hvalues, hus, hc', hrecords⟩

/-- At the end of a block that has been entered the results are recorded as they are declared. -/
lemma at_afterEnd (haccept : B.Accepted) (hjoins : B.JoinsDeclared) {top : List StackType}
    (hat : B.At rest (g.state top false)) (hloop : g.kind ≠ .loop) (hbody : g.kind ≠ .body) :
    ∃ elseParams, B.At (afterEnd rest)
      ⟨g.type.results.reverse.map StackType.val ++ g.below, elseParams, g.outer⟩ := by
  obtain ⟨s₁, hrun, hempty⟩ := hat.run haccept
  obtain ⟨pre, o, rest', g', stack', p', hfound, rfl, hrun', h⟩ := skip_spec false (.innermost top false) hrun hempty
  rcases h with ⟨rfl, hg⟩ | ⟨h, _⟩
  · have hend : B.At (.end :: rest') (g'.state stack' p') := hat.append hrun'
    obtain ⟨s₂, -, hstep, hnext⟩ := hend.next haccept
    have hsame : g'.below = g.below ∧ g'.type = g.type ∧ g'.outer = g.outer ∧ (g'.kind = g.kind ∨ g'.kind = .else) := by
      rcases hg with rfl | ⟨-, -, rfl⟩
      · exact ⟨rfl, rfl, rfl, .inl rfl⟩
      · exact ⟨rfl, rfl, rfl, .inr rfl⟩
    obtain ⟨hbelow, htype, houter, hkind⟩ := hsame
    obtain ⟨top', rfl, -, -, hrecords⟩ := end_frame hstep
    have htop := hrecords (hjoins.2 rest' _ hend (g'.block p') rfl (by
      rcases hkind with hkind | hkind
      · exact fun h => hloop (hkind.symm.trans h)
      · exact fun h => nomatch hkind.symm.trans h) (by
      rcases hkind with hkind | hkind
      · exact fun h => hbody (hkind.symm.trans h)
      · exact fun h => nomatch hkind.symm.trans h))
    have hafter : afterEnd (pre ++ .end :: rest') = rest' := congrArg List.tail hfound
    rw [htop, hbelow, htype, houter] at hnext
    rw [hafter]
    exact ⟨_, hnext⟩
  · cases h

lemma target_block (haccept : B.Accepted) (hjoins : B.JoinsDeclared) {top : List StackType}
    (hat : B.At rest (g.state top false)) (hloop : g.kind ≠ .loop) (hbody : g.kind ≠ .body)
    (hvalues : values.length = g.type.params.length + g.below.length) :
    Target B (blockLabel g.type values rest) g := by
  have htype : g.targetType = g.type.results := if_neg hloop
  refine ⟨iff_of_false Bool.false_ne_true hloop, by rw [htype]; rfl, ?_, ?_⟩
  · show values.length - g.type.params.length = _
    omega
  · rw [htype]
    exact at_afterEnd haccept hjoins hat hloop hbody

lemma length_covered (hc : Covered B.env (stack ++ f.below) values) :
    values.length = stack.length + f.below.length := by
  simp [← hc.length_eq]

lemma target_inner (haccept : B.Accepted) (hjoins : B.JoinsDeclared) {top rest₀ elseParams : List StackType}
    (hat : B.At rest ((f.inner rest₀ false kind type elseParams).state top false)) (hloop : kind ≠ .loop)
    (hbody : kind ≠ .body) (hlength : top.length = type.params.length)
    (hc : Covered B.env (top ++ rest₀ ++ f.below) values) :
    Target B (blockLabel type values rest) (f.inner rest₀ false kind type elseParams) := by
  have hvalues := length_covered hc
  rw [List.length_append, hlength] at hvalues
  refine target_block haccept hjoins hat hloop hbody ?_
  show values.length = type.params.length + (rest₀ ++ f.below).length
  rw [List.length_append]
  omega

lemma sound_inner {top rest₀ : List StackType} {elseParams : List StackType} {ops : List Op}
    (hlabels : LabelsMatch B labels f)
    (hat : B.At ops ((f.inner rest₀ false kind type elseParams).state top false))
    (htarget : Target B label (f.inner rest₀ false kind type elseParams))
    (hc : Covered B.env (top ++ rest₀ ++ f.below) values) (hl : Below B.env locs B.locals) :
    Sound B ⟨ops, values, locs, label :: labels⟩ := by
  refine ⟨_, top, hat, ?_, hl, .inner rfl rfl htarget hlabels⟩
  rw [append_assoc] at hc
  exact hc

section

variable (haccept : B.Accepted)

include haccept

lemma sound_block (hjoins : B.JoinsDeclared) (ht : readBlockType B.env t = some type)
    (h : Sound B ⟨.block t :: rest, values, locs, labels⟩) :
    Sound B ⟨rest, values, locs, blockLabel type values rest :: labels⟩ := by
  obtain ⟨f, stack, hat, hc, hl, hlabels⟩ := h
  obtain ⟨s', -, hstep, hnext⟩ := hat.next haccept
  obtain ⟨type', ht', hpush⟩ := bind_eq_some_iff.1 hstep
  rw [ht] at ht'
  rw [← some.inj ht'] at hpush
  obtain ⟨top, rest₀, us, vs, rfl, hlength, rfl, -⟩ := pushControl_covered hpush hc
  exact sound_inner hlabels hnext (target_inner haccept hjoins hnext nofun nofun hlength hc) hc hl

lemma sound_loop (hjoins : B.JoinsDeclared) (ht : readBlockType B.env t = some type)
    (h : Sound B ⟨.loop t :: rest, values, locs, labels⟩) :
    Sound B ⟨rest, values, locs, loopLabel type values rest :: labels⟩ := by
  obtain ⟨f, stack, hat, hc, hl, hlabels⟩ := h
  obtain ⟨s', -, hstep, hnext⟩ := hat.next haccept
  obtain ⟨type', ht', hpush⟩ := bind_eq_some_iff.1 hstep
  rw [ht] at ht'
  rw [← some.inj ht'] at hpush
  obtain ⟨top, rest₀, us, vs, rfl, hlength, rfl, -, -, -, hrecords⟩ := pushControl_covered hpush hc
  have hvalues : values.length = _ := length_covered hc
  rw [List.length_append, hlength] at hvalues
  have htop := hrecords (hjoins.1 t rest _ hat type ht)
  refine sound_inner hlabels hnext ⟨iff_of_true rfl rfl, rfl, ?_, f.elseParams, ?_⟩ hc hl
  · show values.length - type.params.length = (rest₀ ++ f.below).length
    rw [List.length_append]
    omega
  · rw [htop] at hnext
    exact hnext

lemma if_covered (ht : readBlockType B.env t = some type) {c : ValType}
    (hat : B.At (.if t :: rest) (f.state stack false))
    (hc : Covered B.env (stack ++ f.below) (c :: values)) :
    ∃ top rest₀ us vs, B.At rest ((f.inner rest₀ false .then type (top ++ f.elseParams)).state top false) ∧
      top.length = type.params.length ∧ values = us ++ vs ∧ Below B.env us type.params.reverse ∧
      Covered B.env (rest₀ ++ f.below) vs ∧ Covered B.env (top ++ rest₀ ++ f.below) values := by
  obtain ⟨s', -, hstep, hnext⟩ := hat.next haccept
  obtain ⟨type', ht', h⟩ := bind_eq_some_iff.1 hstep
  rw [ht] at ht'
  rw [← some.inj ht'] at h
  obtain ⟨s₁, hpop, h⟩ := bind_eq_some_iff.1 h
  obtain ⟨stack', _, _, rfl, heq, -, hc⟩ := popWithType_covered hpop hc
  rw [← (List.cons.inj heq).2] at hc
  obtain ⟨s₂, hpush, h⟩ := bind_eq_some_iff.1 h
  obtain ⟨top, rest₀, us, vs, rfl, hlength, rfl, hvalues, hus, hvs, -⟩ := pushControl_covered hpush hc
  refine ⟨top, rest₀, us, vs, ?_, hlength, hvalues, hus, hvs, hc⟩
  have htake : (top ++ (rest₀ ++ f.below)).take type.params.length = top := take_left' hlength
  rw [← some.inj h] at hnext
  unfold saveElseParams Frame.state Frame.inner at hnext
  rw [htake] at hnext
  exact hnext

lemma sound_ifTrue (hjoins : B.JoinsDeclared) (ht : readBlockType B.env t = some type) {c : ValType}
    (h : Sound B ⟨.if t :: rest, c :: values, locs, labels⟩) :
    Sound B ⟨rest, values, locs, blockLabel type values rest :: labels⟩ := by
  obtain ⟨f, stack, hat, hc, hl, hlabels⟩ := h
  obtain ⟨top, rest₀, us, vs, hnext, hlength, -, -, -, hc'⟩ := if_covered haccept ht hat hc
  exact sound_inner hlabels hnext (target_inner haccept hjoins hnext nofun nofun hlength hc') hc' hl

lemma sound_ifFalse (hjoins : B.JoinsDeclared) (ht : readBlockType B.env t = some type) {c : ValType} {rest' : List Op}
    (hrest : skip true 0 rest = .else :: rest')
    (h : Sound B ⟨.if t :: rest, c :: values, locs, labels⟩) :
    Sound B ⟨rest', values, locs, blockLabel type values rest :: labels⟩ := by
  obtain ⟨f, stack, hat, hc, hl, hlabels⟩ := h
  obtain ⟨top, rest₀, us, vs, hnext, hlength, -, -, -, hc'⟩ := if_covered haccept ht hat hc
  have htarget := target_inner haccept hjoins hnext nofun nofun hlength hc'
  obtain ⟨s₁, hrun, hempty⟩ := hnext.run haccept
  obtain ⟨pre, o, rest'', g, stack', p', hfound, rfl, hrun', h⟩ := skip_spec true (.innermost top false) hrun hempty
  rw [hrest] at hfound
  cases hfound
  rcases h with ⟨h, _⟩ | ⟨-, -, rfl⟩
  · cases h
  · obtain ⟨s₂, -, hstep, helse⟩ := (hnext.append hrun').next haccept
    obtain ⟨-, rfl, -⟩ := else_frame hstep
    have htake : (top ++ f.elseParams).take type.params.length = top := take_left' hlength
    have hdrop : (top ++ f.elseParams).drop type.params.length = f.elseParams := drop_left' hlength
    have hinner : (f.inner rest₀ false .then type (top ++ f.elseParams)).elseFrame =
        f.inner rest₀ false .else type f.elseParams :=
      congrArg (fun elseParams => Frame.mk _ elseParams _ _ _) hdrop
    have hat' : B.At rest' ((f.inner rest₀ false .else type f.elseParams).state top false) := by
      rw [hinner] at helse
      rw [← htake]
      exact helse
    exact sound_inner hlabels hat' (htarget.congr rfl rfl rfl (.inr ⟨rfl, rfl⟩)) hc' hl

lemma sound_ifSkip (hjoins : B.JoinsDeclared) {c : ValType} {rest' : List Op} (hrest : skip true 0 rest = .end :: rest')
    (h : Sound B ⟨.if t :: rest, c :: values, locs, labels⟩) :
    Sound B ⟨rest', values, locs, labels⟩ := by
  obtain ⟨f, stack, hat, hc, hl, hlabels⟩ := h
  obtain ⟨s', -, hstep, -⟩ := hat.next haccept
  obtain ⟨type, ht, -⟩ := bind_eq_some_iff.1 hstep
  obtain ⟨top, rest₀, us, vs, hnext, hlength, rfl, hus, hvs, hc'⟩ := if_covered haccept ht hat hc
  obtain ⟨s₁, hrun, hempty⟩ := hnext.run haccept
  obtain ⟨pre, o, rest'', g, stack', p', hfound, rfl, hrun', h⟩ := skip_spec true (.innermost top false) hrun hempty
  rw [hrest] at hfound
  cases hfound
  rcases h with ⟨-, rfl | ⟨h, _⟩⟩ | ⟨-, h, _⟩
  · have hend := hnext.append hrun'
    obtain ⟨s₂, -, hstep, hafter⟩ := hend.next haccept
    obtain ⟨top', rfl, -, hparams, hrecords⟩ := end_frame hstep
    have hdeclared := hrecords (hjoins.2 rest' _ hend _ rfl (fun h => nomatch h) (fun h => nomatch h))
    have hdrop : (top ++ f.elseParams).drop type.params.length = f.elseParams := drop_left' hlength
    refine ⟨f, type.results.reverse.map StackType.val ++ rest₀, ?_, ?_, hl, hlabels⟩
    · rw [hdeclared] at hafter
      unfold Frame.inner at hafter
      rw [if_pos rfl, hdrop, ← append_assoc] at hafter
      exact hafter
    · rw [append_assoc]
      have heq : type.params = type.results := hparams rfl
      rw [← heq]
      exact hvs.pushTypes hus
  · cases h
  · cases h

/-! ## Leaving a block -/

end

lemma checkStackAtEndOfBlock_covered (h : (f.state stack false).checkStackAtEndOfBlock B.env = some s')
    (hc : Covered B.env (stack ++ f.below) values) :
    s' = f.state stack false ∧ ∃ us vs, values = us ++ vs ∧
      Below B.env us f.type.results.reverse ∧ Covered B.env f.below vs := by
  have hlength : (stack ++ f.below).length - f.below.length = stack.length := by
    simp
  change (if f.type.results.length < (stack ++ f.below).length - f.below.length then none
    else (f.state stack false).popThenPushType B.env f.type.results) = some s' at h
  rw [hlength] at h
  by_cases hlong : f.type.results.length < stack.length
  · rw [if_pos hlong] at h
    cases h
  · rw [if_neg hlong] at h
    obtain ⟨rfl, top, rest, us, vs, rfl, htop, rfl, hus, hvs⟩ := popThenPushType_covered h hc
    have hrest : rest = [] := by
      rw [List.length_append] at hlong
      exact eq_nil_of_length_eq_zero (by omega)
    rw [hrest] at hvs
    exact ⟨rfl, us, vs, rfl, hus, hvs⟩

lemma sound_end (haccept : B.Accepted) (h : Sound B ⟨.end :: rest, values, locs, label :: labels⟩) :
    Reached B ⟨rest, values, locs, labels⟩ := by
  obtain ⟨f, stack, hat, hc, hl, hlabels⟩ := h
  obtain ⟨s', -, hstep, hnext⟩ := hat.next haccept
  obtain ⟨s₁, hend, -⟩ := map_eq_some_iff.1 hstep
  obtain ⟨s₂, hcheck, hend⟩ := bind_eq_some_iff.1 hend
  obtain ⟨rfl, -⟩ := checkStackAtEndOfBlock_covered hcheck hc
  obtain ⟨elseParams, hs'⟩ : ∃ elseParams, s' = ⟨stack ++ f.below, elseParams, f.outer⟩ := by
    change (if f.kind = .then then if f.type.params ≠ f.type.results then none
      else some (dropElseParams f.type.params.length (f.state stack false))
      else some (f.state stack false)) = some s₁ at hend
    have hpop : s' = s₁.popEnd := by
      refine Option.some.inj (hstep.symm.trans ?_)
      show ((f.state stack false).readEnd B.env).map popEnd = _
      unfold readEnd
      rw [hcheck]
      exact congrArg (Option.map popEnd) hend
    rw [hpop]
    by_cases hkind : f.kind = .then
    · rw [if_pos hkind] at hend
      by_cases hne : f.type.params ≠ f.type.results
      · rw [if_pos hne] at hend
        cases hend
      · rw [if_neg hne] at hend
        rw [← Option.some.inj hend]
        exact ⟨_, rfl⟩
    · rw [if_neg hkind] at hend
      rw [← Option.some.inj hend]
      exact ⟨_, rfl⟩
  rw [hs'] at hnext
  exact sound_outer haccept hlabels hnext hc hl

lemma sound_else (haccept : B.Accepted) (h : Sound B ⟨.else :: rest, values, locs, label :: labels⟩) :
    Reached B ⟨label.target, values, locs, labels⟩ := by
  obtain ⟨f, stack, hat, hc, hl, hlabels⟩ := h
  obtain ⟨s', -, hstep, -⟩ := hat.next haccept
  obtain ⟨hkind, -, top, hcheck⟩ := else_frame hstep
  obtain ⟨-, us, vs, hvalues, hus, hvs⟩ := checkStackAtEndOfBlock_covered hcheck hc
  have hvalues : values = us ++ vs := hvalues
  cases hlabels with
  | body htarget _ => exact .inl htarget
  | @inner _ _ _ g stack' hbelow houter htarget h =>
    have hne : f.kind ≠ .loop := by
      rw [hkind]
      exact fun h => nomatch h
    have hloop : ¬ label.isLoop = true := fun h => hne (htarget.isLoop.1 h)
    obtain ⟨elseParams, hat'⟩ := htarget.recorded
    rw [if_neg hloop] at hat'
    have htype : f.targetType = f.type.results := if_neg hne
    rw [htype] at hat'
    refine sound_outer haccept (.inner hbelow houter htarget h) hat' ?_ hl
    rw [hvalues]
    exact hvs.pushTypes hus

/-! ## Branches -/

lemma sound_branch (haccept : B.Accepted) {l : ℕ} (hlabels : LabelsMatch B labels f) (hl : labels[l]? = some label)
    (hcheck : checkBranchValue B.env l (f.state stack false) = some s')
    (hc : Covered B.env (stack ++ f.below) values) (hlocs : Below B.env locs B.locals) :
    Reached B (branchTo l label values locs labels) := by
  rcases hlabels.get hl with hnil | ⟨g, above, labels', hblock, hbelow, htarget, hdrop, h⟩
  · exact .inl hnil
  · obtain ⟨block, hcontrol, hpop⟩ := bind_eq_some_iff.1 hcheck
    have hblock' : block = g.block false := some.inj (hcontrol.symm.trans hblock)
    rw [hblock'] at hpop
    obtain ⟨-, top, rest, us, vs, -, -, rfl, hus, -⟩ := popThenPushType_covered hpop hc
    have htake : (us ++ vs).take label.arity = us := by
      refine take_left' ?_
      rw [hus.length_eq, length_reverse]
      exact htarget.arity.symm
    have hbase : Covered B.env g.below ((us ++ vs).drop ((us ++ vs).length - label.height)) := by
      have hlength := length_covered hc
      have hdropped := forall₂_drop (stack ++ above).length
        (show List.Forall₂ _ (stack ++ f.below) (us ++ vs) from hc)
      rw [hbelow, ← append_assoc, drop_left] at hdropped
      have hheight : (us ++ vs).length - label.height = (stack ++ above).length := by
        rw [hlength, htarget.height, hbelow, List.length_append, List.length_append]
        omega
      rw [hheight]
      exact hdropped
    have hvalues : Covered B.env (g.targetType.reverse.map StackType.val ++ g.below)
        ((us ++ vs).take label.arity ++ (us ++ vs).drop ((us ++ vs).length - label.height)) := by
      rw [htake]
      exact hbase.pushTypes hus
    obtain ⟨elseParams, hat⟩ := htarget.recorded
    unfold branchTo
    split_ifs at hat ⊢
    · rw [hdrop]
      exact .inr ⟨⟨g.below, elseParams, g.kind, g.type, g.outer⟩, _, hat, hvalues, hlocs,
        h.congr rfl rfl rfl (.inl rfl)⟩
    · have hdrop' : labels.drop (l + 1) = labels' := by
        rw [← drop_drop, hdrop]
        rfl
      rw [hdrop']
      exact sound_outer haccept h hat hvalues hlocs

/-- The types at the target of every branch of a table are checked against the same operands. -/
lemma checkBrTable_covered {depths : List ℕ} {prev : Option (List ValType)}
    (h : checkBrTable B.env depths prev (f.state stack false) = some s')
    (hc : Covered B.env (stack ++ f.below) values) {l : ℕ} (hl : l ∈ depths) :
    ∃ s₁, checkBranchValue B.env l (f.state stack false) = some s₁ := by
  induction depths generalizing prev with
  | nil => cases hl
  | cons depth depths ih =>
    obtain ⟨⟨type, s₁⟩, hentry, htable⟩ := bind_eq_some_iff.1 h
    obtain ⟨block, hcontrol, hentry⟩ := bind_eq_some_iff.1 hentry
    by_cases hlength : prev.any
        (fun prevType => decide (prevType.length ≠ block.branchTargetType.length)) = true
    · rw [if_pos hlength] at hentry
      cases hentry
    · rw [if_neg hlength] at hentry
      obtain ⟨s₂, hpop, heq⟩ := bind_eq_some_iff.1 hentry
      cases heq
      obtain ⟨rfl, -⟩ := popThenPushType_covered hpop hc
      rcases mem_cons.1 hl with rfl | hl
      · refine ⟨f.state stack false, ?_⟩
        unfold checkBranchValue
        rw [hcontrol]
        exact hpop
      · exact ih htable hl

lemma LabelsMatch.last_target (h : LabelsMatch B labels f) (hl : labels.getLast? = some label) : label.target = [] := by
  induction h with
  | body htarget _ =>
    rw [← some.inj hl]
    exact htarget
  | @inner label' labels f g stack hbelow houter htarget h ih =>
    refine ih ?_
    cases labels with
    | nil => cases h
    | cons label'' labels => exact hl

/-! ## Runs -/

/-- A step of a path keeps what is recorded above the types of the values. -/
theorem sound_step (haccept : B.Accepted) (hjoins : B.JoinsDeclared) (h : Sound B c)
    (hstep : PathStep B.env c c') : Reached B c' := by
  cases hstep with
  | op hop rest labels =>
    obtain ⟨f, stack, hat, hc, hl, hlabels⟩ := h
    obtain ⟨s', -, hstep, hnext⟩ := hat.next haccept
    obtain ⟨stack', rfl, hc', hl'⟩ := opStep_matched hstep hc hl hop
    exact .inr ⟨f, stack', hnext, hc', hl', hlabels⟩
  | block ht => exact .inr (sound_block haccept hjoins ht h)
  | loop ht => exact .inr (sound_loop haccept hjoins ht h)
  | ifTrue ht => exact .inr (sound_ifTrue haccept hjoins ht h)
  | ifFalse ht hrest => exact .inr (sound_ifFalse haccept hjoins ht hrest h)
  | ifSkip hrest => exact .inr (sound_ifSkip haccept hjoins hrest h)
  | «else» => exact sound_else haccept h
  | «end» => exact sound_end haccept h
  | br hl =>
    obtain ⟨f, stack, hat, hc, hlocs, hlabels⟩ := h
    obtain ⟨s', -, hstep, -⟩ := hat.next haccept
    obtain ⟨s₁, hcheck, -⟩ := bind_eq_some_iff.1 hstep
    exact sound_branch haccept hlabels hl hcheck hc hlocs
  | brIf hl =>
    obtain ⟨f, stack, hat, hc, hlocs, hlabels⟩ := h
    obtain ⟨s', -, hstep, -⟩ := hat.next haccept
    obtain ⟨s₁, hpop, hcheck⟩ := bind_eq_some_iff.1 hstep
    obtain ⟨stack', _, _, rfl, heq, -, hc⟩ := popWithType_covered hpop hc
    rw [← (List.cons.inj heq).2] at hc
    exact sound_branch haccept hlabels hl hcheck hc hlocs
  | brIfNot l =>
    obtain ⟨f, stack, hat, hc, hlocs, hlabels⟩ := h
    obtain ⟨s', -, hstep, hnext⟩ := hat.next haccept
    obtain ⟨s₁, hpop, hcheck⟩ := bind_eq_some_iff.1 hstep
    obtain ⟨stack', _, _, rfl, heq, -, hc⟩ := popWithType_covered hpop hc
    rw [← (List.cons.inj heq).2] at hc
    obtain ⟨block, -, hcheck⟩ := bind_eq_some_iff.1 hcheck
    obtain ⟨rfl, -⟩ := popThenPushType_covered hcheck hc
    exact .inr ⟨f, stack', hnext, hc, hlocs, hlabels⟩
  | @brTable ls d l hmem label labels hl =>
    obtain ⟨f, stack, hat, hc, hlocs, hlabels⟩ := h
    obtain ⟨s', -, hstep, -⟩ := hat.next haccept
    change (if ls.length > MaxBrTableElems then none else _) = _ at hstep
    by_cases hlong : ls.length > MaxBrTableElems
    · rw [if_pos hlong] at hstep
      cases hstep
    · rw [if_neg hlong] at hstep
      obtain ⟨s₁, hpop, hcheck⟩ := bind_eq_some_iff.1 hstep
      obtain ⟨stack', _, _, rfl, heq, -, hc⟩ := popWithType_covered hpop hc
      rw [← (List.cons.inj heq).2] at hc
      obtain ⟨s₂, hcheck, -⟩ := bind_eq_some_iff.1 hcheck
      obtain ⟨s₃, hcheck⟩ := checkBrTable_covered hcheck hc hmem
      exact sound_branch haccept hlabels hl hcheck hc hlocs
  | «return» hl =>
    obtain ⟨f, stack, -, -, -, hlabels⟩ := h
    exact .inl (hlabels.last_target hl)

lemma sound_start (haccept : B.Accepted) (hlocs : Below B.env locs B.locals) :
    Sound B (Path.start B.results B.ops locs) := by
  have hat : B.At B.ops (start B.results) := ⟨[], rfl, rfl⟩
  refine ⟨⟨[], [], .body, ⟨[], B.results⟩, []⟩, [], hat, .nil, hlocs, .body ?_ rfl⟩
  obtain ⟨s₁, hrun, hempty⟩ := hat.run haccept
  obtain ⟨pre, o, rest, g, stack, p, hfound, hops, hrun', h⟩ :=
    skip_spec false (.innermost (f := ⟨[], [], .body, ⟨[], B.results⟩, []⟩) [] false) hrun hempty
  rcases h with ⟨rfl, rfl | ⟨-, h, -⟩⟩ | ⟨h, _⟩
  · rw [hops] at hat
    obtain ⟨s₂, -, hstep, hnext⟩ := (hat.append hrun').next haccept
    obtain ⟨top, rfl, -⟩ := end_frame hstep
    have hrest : rest = [] := hnext.eq_nil haccept rfl
    show (skip false 0 B.ops).tail = []
    rw [hfound, hrest]
    rfl
  · cases h
  · cases h

/-- If the types at joins are the declared ones, then on every path through an accepted body the recorded
types are supertypes of those of the values, and each access to a field is to a struct that has it. -/
theorem recorded_types_sound (haccept : B.Accepted) (hjoins : B.JoinsDeclared)
    (hlocs : Below B.env locs B.locals) (hc : Path.Reachable B.env B.results B.ops locs c) {o : Op}
    (hrest : c.rest = o :: rest) :
    ∃ s, B.At c.rest s ∧ Covered B.env s.valueStack c.values ∧ (∀ i j, o = .structGet i j → ∃ v vs, c.values = v :: vs ∧
        B.env.checkIsSubtypeOf v (.ref i) = true) ∧
      ∀ i j, o = .structSet i j → ∃ u v vs, c.values = u :: v :: vs ∧ B.env.checkIsSubtypeOf v (.ref i) = true := by
  have hreached : Reached B c := by
    clear hrest
    induction hc with
    | refl => exact .inr (sound_start haccept hlocs)
    | tail _ hstep ih =>
      rcases ih with hnil | hsound
      · exact .inl (by cases hstep <;> cases hnil)
      · exact sound_step haccept hjoins hsound hstep
  rcases hreached with hnil | ⟨f, stack, hat, hcovered, -, -⟩
  · rw [hrest] at hnil
    cases hnil
  · refine ⟨_, hat, hcovered, ?_, ?_⟩
    · rintro i j rfl
      rw [hrest] at hat
      obtain ⟨s', -, hstep, -⟩ := hat.next haccept
      obtain ⟨fields, -, hstep⟩ := bind_eq_some_iff.1 hstep
      obtain ⟨field, -, hstep⟩ := bind_eq_some_iff.1 hstep
      obtain ⟨s₁, hpop, -⟩ := bind_eq_some_iff.1 hstep
      obtain ⟨-, v, vs, -, hvalues, hv, -⟩ := popWithType_covered hpop hcovered
      simp [hvalues, hv]
    · rintro i j rfl
      rw [hrest] at hat
      obtain ⟨s', -, hstep, -⟩ := hat.next haccept
      obtain ⟨fields, -, hstep⟩ := bind_eq_some_iff.1 hstep
      obtain ⟨field, -, hstep⟩ := bind_eq_some_iff.1 hstep
      obtain ⟨s₁, hpop, hstep⟩ := bind_eq_some_iff.1 hstep
      obtain ⟨rest', u, vs, rfl, hvalues, -, hvs⟩ := popWithType_covered hpop hcovered
      by_cases hmutable : field.isMutable = true
      · rw [if_pos hmutable] at hstep
        obtain ⟨-, v, vs', -, rfl, hv, -⟩ := popWithType_covered hstep hvs
        simp [hvalues, hv]
      · rw [if_neg hmutable] at hstep
        cases hstep

def structEnv : ModuleEnvironment :=
  ⟨[.struct [⟨.i32, false⟩], .struct [⟨.num .f64, false⟩]], [], true, true, false⟩

/-- A block whose result is recorded as it is declared. -/
def declaredBody : Body :=
  ⟨structEnv, [], [.i32], [.block (.single (.ref 0)), .refNull (.ref 0), .end, .structGet 0 0, .end]⟩

/-- The path after the block. -/
def declaredPath : Path :=
  ⟨[.structGet 0 0, .end], [.ref 0], [], [⟨false, 1, 0, []⟩]⟩

theorem recorded_types_sound_declaredBody : declaredBody.Accepted ∧ declaredBody.JoinsDeclared ∧
    ∃ s, declaredBody.At declaredPath.rest s ∧ Covered structEnv s.valueStack declaredPath.values := by
  have haccept : declaredBody.Accepted := ⟨_, rfl, rfl⟩
  have hjoins : declaredBody.JoinsDeclared := by
    constructor
    · rintro t rest s ⟨pre, hops, -⟩
      have hmem : Op.loop t ∈ declaredBody.ops := by
        simp [hops]
      simp [declaredBody] at hmem
    · rintro rest s ⟨pre, hops, hrun⟩ block hblock - hbody
      obtain _ | ⟨_, _ | ⟨_, _ | ⟨_, _ | ⟨_, _ | ⟨_, pre⟩⟩⟩⟩⟩ := pre <;>
        simp [declaredBody] at hops
      · obtain ⟨rfl, rfl, rfl⟩ := hops
        rw [← some.inj hrun]
        rw [← some.inj hrun] at hblock
        rw [← some.inj hblock]
        intro block' hblock' x hx
        rw [← some.inj hblock'] at hx
        rw [mem_singleton.1 hx]
        exact .inr rfl
      · obtain ⟨rfl, rfl, rfl, rfl, rfl⟩ := hops
        rw [← some.inj hrun] at hblock
        exact absurd (congrArg Control.kind (some.inj hblock)).symm hbody
  have hreach : Path.Reachable structEnv declaredBody.results declaredBody.ops [] declaredPath :=
    .tail (.tail (.tail .refl (.block rfl _ _ _ _)) (.op (.refNull _ _ _) _ _)) (.end _ _ _ _ _)
  obtain ⟨s, hat, hcovered, -⟩ := recorded_types_sound haccept hjoins .nil hreach rfl
  exact ⟨haccept, hjoins, s, hat, hcovered⟩

/-- A block that a branch leaves with a value of one struct type, and that ends with one of the other. -/
def confusedBody : Body :=
  ⟨structEnv, [.anyRef, .i32], [.i32],
    [.block (.single .anyRef), .getLocal 0, .getLocal 1, .brIf 0, .drop, .refNull (.ref 0), .end, .structGet 0 0, .end]⟩

def confusedPath : Path :=
  ⟨[.structGet 0 0, .end], [.ref 1], [.ref 1, .i32], [⟨false, 1, 0, []⟩]⟩

theorem confusedBody_not_sound : confusedBody.Accepted ∧
    Path.Reachable structEnv confusedBody.results confusedBody.ops [.ref 1, .i32] confusedPath ∧
    Below structEnv [.ref 1, .i32] confusedBody.locals ∧
    ¬ ∃ s, confusedBody.At confusedPath.rest s ∧ Covered structEnv s.valueStack confusedPath.values := by
  refine ⟨⟨_, rfl, rfl⟩, ?_, .cons (by decide) (.cons (by decide) .nil), ?_⟩
  · let labels : List Label := [⟨false, 1, 0, [.structGet 0 0, .end]⟩, ⟨false, 1, 0, []⟩]
    have hblock : PathStep structEnv (Path.start confusedBody.results confusedBody.ops [.ref 1, .i32])
        ⟨confusedBody.ops.drop 1, [], [.ref 1, .i32], labels⟩ :=
      @PathStep.block structEnv (.single .anyRef) ⟨[], [.anyRef]⟩ rfl _ _ _ _
    have hfirst : PathStep structEnv ⟨confusedBody.ops.drop 1, [], [.ref 1, .i32], labels⟩
        ⟨confusedBody.ops.drop 2, [.ref 1], [.ref 1, .i32], labels⟩ := .op (.getLocal rfl _) _ _
    have hsecond : PathStep structEnv ⟨confusedBody.ops.drop 2, [.ref 1], [.ref 1, .i32], labels⟩
        ⟨confusedBody.ops.drop 3, [.i32, .ref 1], [.ref 1, .i32], labels⟩ := .op (.getLocal rfl _) _ _
    have htaken : PathStep structEnv
        ⟨confusedBody.ops.drop 3, [.i32, .ref 1], [.ref 1, .i32], labels⟩ confusedPath :=
      @PathStep.brIf structEnv 0 ⟨false, 1, 0, [.structGet 0 0, .end]⟩ labels rfl _ _ _ _
    exact .tail (.tail (.tail (.tail .refl hblock) hfirst) hsecond) htaken
  · rintro ⟨s, ⟨pre, hops, hrun⟩, hcovered⟩
    have hpre : pre = confusedBody.ops.take 7 := append_cancel_right (hops.symm.trans (take_append_drop 7 _).symm)
    rw [hpre] at hrun
    rw [← some.inj hrun] at hcovered
    obtain ⟨⟨t, ht, hsub⟩, -⟩ := forall₂_cons.1 hcovered
    rw [← StackType.val.inj ht] at hsub
    cases hsub

end SpiderMonkey.Wasm
