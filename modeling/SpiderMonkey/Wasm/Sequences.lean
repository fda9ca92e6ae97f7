import SpiderMonkey.Wasm.Blocks

/-!
# Sequences of instructions

By induction on a sequence, the run of its operations does to the stack what the types of the sequence
say.
-/

namespace SpiderMonkey.Wasm

open OpIter List Option

variable {f : Frame} {C : Context} {env : ModuleEnvironment} {locals : List ValType}
  {type : BlockType} {ps rs : List NumType} {t : BlockTypeCode} {body thenBody elseBody rest : Expr}

/-! ## Runs of blocks -/

lemma bind_run_end (ops : List Op) (s : Option OpIter) :
    s.bind (run env locals (.end :: ops)) = (s.bind fun s => (s.readEnd env).map popEnd).bind (run env locals ops) := by
  rw [bind_assoc]
  refine Option.bind_congr fun s _ => (run_end ops s).trans ?_
  cases s.readEnd env <;> rfl

lemma bind_run_else (ops : List Op) (s : Option OpIter) :
    s.bind (run env locals (.else :: ops)) = (s.bind fun s => s.readElse env).bind (run env locals ops) := by
  rw [bind_assoc]
  exact Option.bind_congr fun s _ => run_else ops s

lemma run_opened {s : OpIter} {o : Op} {kind : LabelKind}
    (ho : ∀ s, OpIter.step env locals s o = (readBlockType env t).bind fun type => s.pushControl env kind type)
    (hs : s.controlStack ≠ []) (htype : readBlockType env t = some type) (ops ops' : List Op) :
    run env locals (o :: (ops ++ .end :: ops')) s = ((s.pushControl env kind type).bind fun s =>
        (run env locals ops s).bind fun s => (s.readEnd env).map popEnd).bind (run env locals ops') := by
  rw [run_cons_of_ne_nil hs, ho, htype]
  show (s.pushControl env kind type).bind _ = _
  rw [bind_assoc]
  refine Option.bind_congr fun s _ => ?_
  rw [run_append, bind_run_end]

lemma run_if {s : OpIter} (hs : s.controlStack ≠ []) (htype : readBlockType env t = some type)
    (ops : List Op) : run env locals (.if t :: ops) s =
      (s.popWithType env .i32).bind fun s => (s.pushControl env .then type).bind fun s =>
        run env locals ops (s.saveElseParams type.params.length) := by
  rw [run_cons_of_ne_nil hs]
  show ((readBlockType env t).bind fun type => (s.popWithType env .i32).bind fun s =>
    (s.pushControl env .then type).bind fun s =>
      some (s.saveElseParams type.params.length)).bind _ = _
  rw [htype]
  show ((s.popWithType env .i32).bind fun s => (s.pushControl env .then type).bind fun s =>
      some (s.saveElseParams type.params.length)).bind _ = _
  rw [bind_assoc]
  refine Option.bind_congr fun s _ => ?_
  rw [bind_assoc]
  rfl

/-! ## Typings of blocks -/

lemma enclosed_iff {P : Prop} {ns ns'' : List NumType} :
    (∃ ns', (P ∧ ∃ below, ns = ps.reverse ++ below ∧ ns' = rs.reverse ++ below) ∧ SequenceRel C rest ns' ns'') ↔
    P ∧ ∃ below, ns.reverse = below ++ ps ∧ Typed C rest (below ++ rs) ns''.reverse := by
  constructor
  · rintro ⟨_, ⟨hP, below, rfl, rfl⟩, hrest⟩
    refine ⟨hP, below.reverse, ?_, ?_⟩
    · simp
    · unfold SequenceRel at hrest
      rw [reverse_append, reverse_reverse] at hrest
      exact hrest
  · rintro ⟨hP, below, hns, hrest⟩
    refine ⟨rs.reverse ++ below.reverse, ⟨hP, below.reverse, ?_, rfl⟩, ?_⟩
    · simp [← reverse_append, ← hns]
    · unfold SequenceRel
      simpa using hrest

lemma condition_iff {P : Prop} {ns ns₂ : List NumType} :
    (∃ ns₁, ns = .i32 :: ns₁ ∧ ∃ ns', (P ∧ ∃ below, ns₁ = ps.reverse ++ below ∧
      ns' = rs.reverse ++ below) ∧ SequenceRel C rest ns' ns₂) ↔
    P ∧ ∃ below, ns.reverse = below ++ ps ++ [NumType.i32] ∧ Typed C rest (below ++ rs) ns₂.reverse := by
  constructor
  · rintro ⟨ns₁, rfl, h⟩
    obtain ⟨hP, below, hns, hrest⟩ := enclosed_iff.1 h
    exact ⟨hP, below, by rw [reverse_cons, hns], hrest⟩
  · rintro ⟨hP, below, hns, hrest⟩
    have heq : ns = .i32 :: (below ++ ps).reverse := by
      rw [← reverse_reverse ns, hns, reverse_append]
      rfl
    exact ⟨_, heq, enclosed_iff.2 ⟨hP, below, reverse_reverse _, hrest⟩⟩

variable (ht : ∀ ps' rs', BlockTyped C.env t ps' rs' ↔ ps' = ps ∧ rs' = rs)
  {ts ts' : List NumType}

include ht

lemma typed_block_iff : Typed C (.block t body rest) ts ts' ↔
    Typed (C.label rs) body ps rs ∧ ∃ below, ts = below ++ ps ∧ Typed C rest (below ++ rs) ts' := by
  constructor
  · intro h
    cases h with
    | block htype hbody hrest =>
      obtain ⟨rfl, rfl⟩ := (ht _ _).1 htype
      simp [hbody, hrest]
  · rintro ⟨hbody, below, rfl, hrest⟩
    exact .block ((ht _ _).2 ⟨rfl, rfl⟩) hbody hrest

lemma typed_loop_iff : Typed C (.loop t body rest) ts ts' ↔
    Typed (C.label ps) body ps rs ∧ ∃ below, ts = below ++ ps ∧ Typed C rest (below ++ rs) ts' := by
  constructor
  · intro h
    cases h with
    | loop htype hbody hrest =>
      obtain ⟨rfl, rfl⟩ := (ht _ _).1 htype
      simp [hbody, hrest]
  · rintro ⟨hbody, below, rfl, hrest⟩
    exact .loop ((ht _ _).2 ⟨rfl, rfl⟩) hbody hrest

lemma typed_ifThen_iff : Typed C (.ifThen t thenBody rest) ts ts' ↔
    (Typed (C.label rs) thenBody ps rs ∧ Typed (C.label rs) .nil ps rs) ∧
      ∃ below, ts = below ++ ps ++ [NumType.i32] ∧ Typed C rest (below ++ rs) ts' := by
  constructor
  · intro h
    cases h with
    | ifThen htype hthen helse hrest =>
      obtain ⟨rfl, rfl⟩ := (ht _ _).1 htype
      simp [hthen, helse, hrest]
  · rintro ⟨⟨hthen, helse⟩, below, rfl, hrest⟩
    exact .ifThen ((ht _ _).2 ⟨rfl, rfl⟩) hthen helse hrest

lemma typed_ifElse_iff : Typed C (.ifElse t thenBody elseBody rest) ts ts' ↔
    (Typed (C.label rs) thenBody ps rs ∧ Typed (C.label rs) elseBody ps rs) ∧
      ∃ below, ts = below ++ ps ++ [NumType.i32] ∧ Typed C rest (below ++ rs) ts' := by
  constructor
  · intro h
    cases h with
    | ifElse htype hthen helse hrest =>
      obtain ⟨rfl, rfl⟩ := (ht _ _).1 htype
      simp [hthen, helse, hrest]
  · rintro ⟨⟨hthen, helse⟩, below, rfl, hrest⟩
    exact .ifElse ((ht _ _).2 ⟨rfl, rfl⟩) hthen helse hrest

omit ht

/-! ## Sequences -/

/-- The instructions that are listed as plain ones have no others in them. -/
def Expr.IsWellFormed : Expr → Prop
  | .nil => True
  | .plain op rest => op.IsPlain ∧ rest.IsWellFormed
  | .block _ body rest | .loop _ body rest | .ifThen _ body rest =>
    body.IsWellFormed ∧ rest.IsWellFormed
  | .ifElse _ thenBody elseBody rest =>
    thenBody.IsWellFormed ∧ elseBody.IsWellFormed ∧ rest.IsWellFormed

/-- All operations of the sequence are over the numeric types, and their tables are not too large. -/
def Expr.IsAdmissible (env : ModuleEnvironment) (locals : List ValType) (e : Expr) : Prop :=
  ∀ op ∈ e.ops, op.IsNumeric env locals ∧ op.TableFits

lemma sequence_nil : SequenceExact C .nil := by
  refine fun f _ => exact_some.congr fun ns ns' => ⟨fun h => ?_, fun h => ?_⟩
  · rw [h]
    exact .nil _
  · unfold SequenceRel at h
    generalize hts : ns.reverse = ts at h
    generalize hts' : ns'.reverse = ts' at h
    cases h with
    | nil => exact reverse_injective (hts.trans hts'.symm)

lemma sequence_plain {op : Op} (hplain : op.IsPlain) (hop : op.IsNumeric C.env C.locals ∧ op.TableFits)
    (hrest : SequenceExact C rest) : SequenceExact C (.plain op rest) := by
  refine fun f hf => (((exact_step hf hplain hop.1 hop.2).bind (hrest f hf)).congr
    fun ns ns' => ?_).congr_op fun stack p => run_cons_of_ne_nil (cons_ne_nil _ _) _ _
  constructor
  · rintro ⟨_, ⟨params, results, below, hop, rfl, rfl⟩, h⟩
    unfold SequenceRel at h ⊢
    rw [reverse_append, reverse_reverse] at h ⊢
    exact .plain hop h
  · intro h
    unfold SequenceRel at h
    generalize hts : ns.reverse = ts at h
    cases h with
    | @plain _ _ _ below params results _ hop h =>
      refine ⟨(below ++ results).reverse, ⟨params, results, below.reverse, hop, ?_, ?_⟩, ?_⟩
      · simp [← reverse_append, ← hts]
      · simp
      · unfold SequenceRel
        simp [h]

lemma sequence_untyped {e : Expr} {o : Op} {ops : List Op} {next : OpIter → BlockType → Option OpIter}
    (he : e.ops = o :: ops) (ho : ∀ s, OpIter.step C.env C.locals s o = (readBlockType C.env t).bind (next s))
    (htype : readBlockType C.env t = none) (htyped : ∀ ts ts', ¬ Typed C e ts ts') : SequenceExact C e := by
  refine fun f _ => exact_fail (fun s => ?_) fun ns ns' => htyped _ _
  rw [he]
  show (if s.controlStack = [] then none else (OpIter.step C.env C.locals s o).bind _) = none
  simp [ho, htype]

lemma sequence_block (hnum : (Op.block t).IsNumeric C.env C.locals)
    (hbody : ∀ ts, SequenceExact (C.label ts) body) (hrest : SequenceExact C rest) :
    SequenceExact C (.block t body rest) := by
  rcases readBlockType_spec hnum with ⟨ps, rs, htype, ht⟩ | ⟨htype, ht⟩
  · intro f hf
    refine (((exact_enclosed .block hf (fun h => nomatch h) rfl (hbody rs)).bind
      (hrest f hf)).congr fun ns ns' => ?_).congr_op fun stack p =>
        run_opened (fun _ => rfl) (cons_ne_nil _ _) htype _ _
    exact enclosed_iff.trans (typed_block_iff ht).symm
  · refine sequence_untyped rfl (fun _ => rfl) htype fun ts ts' h => ?_
    cases h with
    | block htyped => exact ht _ _ htyped

lemma sequence_loop (hnum : (Op.loop t).IsNumeric C.env C.locals)
    (hbody : ∀ ts, SequenceExact (C.label ts) body) (hrest : SequenceExact C rest) :
    SequenceExact C (.loop t body rest) := by
  rcases readBlockType_spec hnum with ⟨ps, rs, htype, ht⟩ | ⟨htype, ht⟩
  · intro f hf
    refine (((exact_enclosed .loop hf (fun h => nomatch h) rfl (hbody ps)).bind
      (hrest f hf)).congr fun ns ns' => ?_).congr_op fun stack p =>
        run_opened (fun _ => rfl) (cons_ne_nil _ _) htype _ _
    exact enclosed_iff.trans (typed_loop_iff ht).symm
  · refine sequence_untyped rfl (fun _ => rfl) htype fun ts ts' h => ?_
    cases h with
    | loop htyped => exact ht _ _ htyped

lemma sequence_ifThen (hnum : (Op.if t).IsNumeric C.env C.locals)
    (hthen : ∀ ts, SequenceExact (C.label ts) thenBody) (hrest : SequenceExact C rest) :
    SequenceExact C (.ifThen t thenBody rest) := by
  rcases readBlockType_spec hnum with ⟨ps, rs, htype, ht⟩ | ⟨htype, ht⟩
  · intro f hf
    refine (((exact_popWithType C.env .i32).bind ((exact_ifThen ps hf (hthen rs)).bind
      (hrest f hf))).congr fun ns ns' => ?_).congr_op fun stack p => ?_
    · exact condition_iff.trans (typed_ifThen_iff ht).symm
    · refine (run_if (cons_ne_nil _ _) htype _).trans (Option.bind_congr fun s _ => ?_)
      rw [bind_assoc]
      refine Option.bind_congr fun s _ => ?_
      rw [run_append, bind_run_end, length_map]
  · refine sequence_untyped rfl (fun _ => rfl) htype fun ts ts' h => ?_
    cases h with
    | ifThen htyped => exact ht _ _ htyped

lemma sequence_ifElse (hnum : (Op.if t).IsNumeric C.env C.locals) (hthen : ∀ ts, SequenceExact (C.label ts) thenBody)
    (helse : ∀ ts, SequenceExact (C.label ts) elseBody) (hrest : SequenceExact C rest) :
    SequenceExact C (.ifElse t thenBody elseBody rest) := by
  rcases readBlockType_spec hnum with ⟨ps, rs, htype, ht⟩ | ⟨htype, ht⟩
  · intro f hf
    refine (((exact_popWithType C.env .i32).bind ((exact_ifElse ps hf (hthen rs)
      (helse rs)).bind (hrest f hf))).congr fun ns ns' => ?_).congr_op fun stack p => ?_
    · exact condition_iff.trans (typed_ifElse_iff ht).symm
    · refine (run_if (cons_ne_nil _ _) htype _).trans (Option.bind_congr fun s _ => ?_)
      rw [bind_assoc]
      refine Option.bind_congr fun s _ => ?_
      rw [run_append, bind_run_else, length_map, bind_assoc, bind_assoc]
      refine Option.bind_congr fun s _ => ?_
      rw [bind_assoc]
      refine Option.bind_congr fun s _ => ?_
      rw [run_append, bind_run_end]
  · refine sequence_untyped rfl (fun _ => rfl) htype fun ts ts' h => ?_
    cases h with
    | ifElse htyped => exact ht _ _ htyped

lemma Expr.IsAdmissible.mono {e e' : Expr} (he : e.IsAdmissible env locals) (h : ∀ op ∈ e'.ops, op ∈ e.ops) :
    e'.IsAdmissible env locals :=
  fun op hop => he op (h op hop)

/-- The operations of a sequence do what its types say. -/
theorem sequence_exact {e : Expr} (hwf : e.IsWellFormed) (he : e.IsAdmissible C.env C.locals) : SequenceExact C e := by
  induction e generalizing C with
  | nil => exact sequence_nil
  | plain op rest ih => exact sequence_plain hwf.1 (he op mem_cons_self) (ih hwf.2 (he.mono fun _ => mem_cons_of_mem _))
  | block t body rest ihbody ihrest =>
    exact sequence_block (he _ mem_cons_self).1 (fun _ => ihbody hwf.1 (he.mono (by simp +contextual [Expr.ops])))
      (ihrest hwf.2 (he.mono (by simp +contextual [Expr.ops])))
  | loop t body rest ihbody ihrest =>
    exact sequence_loop (he _ mem_cons_self).1 (fun _ => ihbody hwf.1 (he.mono (by simp +contextual [Expr.ops])))
      (ihrest hwf.2 (he.mono (by simp +contextual [Expr.ops])))
  | ifThen t thenBody rest ihthen ihrest =>
    exact sequence_ifThen (he _ mem_cons_self).1 (fun _ => ihthen hwf.1 (he.mono (by simp +contextual [Expr.ops])))
      (ihrest hwf.2 (he.mono (by simp +contextual [Expr.ops])))
  | ifElse t thenBody elseBody rest ihthen ihelse ihrest =>
    exact sequence_ifElse (he _ mem_cons_self).1 (fun _ => ihthen hwf.1 (he.mono (by simp +contextual [Expr.ops])))
      (fun _ => ihelse hwf.2.1 (he.mono (by simp +contextual [Expr.ops])))
      (ihrest hwf.2.2 (he.mono (by simp +contextual [Expr.ops])))

end SpiderMonkey.Wasm
