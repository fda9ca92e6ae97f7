import SpiderMonkey.Wasm.OpenBlocks

/-!
# Recorded types and the types of values

Where the code is reached, the operands have the types that `OpIter` recorded, or subtypes of them.  An
operation that does not jump keeps it so.
-/

namespace SpiderMonkey.Wasm

open OpIter ModuleEnvironment List Option StackType

variable {env : ModuleEnvironment} {locals : List ValType} {f : Frame} {s' : OpIter}
  {stack : List StackType} {t : ValType} {ts values values' locs locs' : List ValType}

/-- The recorded type is known, and the type of the value is a subtype of it. -/
def Covers (env : ModuleEnvironment) (type : StackType) (v : ValType) : Prop :=
  ∃ t, type = .val t ∧ env.checkIsSubtypeOf v t = true

def Covered (env : ModuleEnvironment) (stack : List StackType) (values : List ValType) : Prop :=
  List.Forall₂ (Covers env) stack values

/-- The types of values are subtypes of these types. -/
def Below (env : ModuleEnvironment) (values types : List ValType) : Prop :=
  List.Forall₂ (fun v t => env.checkIsSubtypeOf v t = true) values types

lemma Covered.push {v : ValType} (h : Covered env stack values) (hv : env.checkIsSubtypeOf v t = true) :
    Covered env (.val t :: stack) (v :: values) := .cons ⟨t, rfl, hv⟩ h

lemma Covered.pushTypes {us : List ValType} (h : Covered env stack values) (hus : Below env us ts) :
    Covered env (ts.map val ++ stack) (us ++ values) := by
  induction hus with
  | nil => exact h
  | cons hu _ ih => exact ih.push hu

/-! ## Operands -/

lemma popStackType_covered {type : StackType} (h : (f.state stack false).popStackType = some (type, s'))
    (hc : Covered env (stack ++ f.below) values) :
    ∃ t rest v vs, type = .val t ∧ s' = f.state rest false ∧ stack = .val t :: rest ∧
      values = v :: vs ∧ env.checkIsSubtypeOf v t = true ∧ Covered env (rest ++ f.below) vs := by
  obtain ⟨rest, rfl, hstack⟩ := popStackType_frame h
  rw [hstack rfl] at hc
  cases hc with
  | cons hv hc =>
    obtain ⟨t, rfl, hv⟩ := hv
    exact ⟨t, rest, _, _, rfl, rfl, hstack rfl, rfl, hv, hc⟩

lemma popWithType_covered (h : popWithType env t (f.state stack false) = some s')
    (hc : Covered env (stack ++ f.below) values) :
    ∃ rest v vs, s' = f.state rest false ∧ values = v :: vs ∧ env.checkIsSubtypeOf v t = true ∧
      Covered env (rest ++ f.below) vs := by
  obtain ⟨⟨type, s₁⟩, hpop, h⟩ := bind_eq_some_iff.1 h
  obtain ⟨t', rest, v, vs, rfl, rfl, -, rfl, hv, hc⟩ := popStackType_covered hpop hc
  change (if env.checkIsSubtypeOf t' t = true then some (f.state rest false) else none) = some s' at h
  by_cases hcheck : env.checkIsSubtypeOf t' t = true
  · rw [if_pos hcheck] at h
    exact ⟨rest, v, vs, (some.inj h).symm, rfl, checkIsSubtypeOf_trans hv hcheck, hc⟩
  · rw [if_neg hcheck] at h
    cases h

lemma popReversed_covered (h : popReversed env ts (f.state stack false) = some s')
    (hc : Covered env (stack ++ f.below) values) :
    ∃ rest us vs, s' = f.state rest false ∧ values = us ++ vs ∧ Below env us ts ∧ Covered env (rest ++ f.below) vs := by
  induction ts generalizing stack values with
  | nil => exact ⟨stack, [], values, (some.inj h).symm, rfl, .nil, hc⟩
  | cons t ts ih =>
    obtain ⟨s₁, hpop, h⟩ := bind_eq_some_iff.1 h
    obtain ⟨rest, v, vs, rfl, rfl, hv, hc⟩ := popWithType_covered hpop hc
    obtain ⟨rest', us, vs', rfl, rfl, hus, hc⟩ := ih h hc
    exact ⟨rest', v :: us, vs', rfl, rfl, .cons hv hus, hc⟩

lemma popTypes_covered (h : popTypes env ts (f.state stack false) = some s')
    (hc : Covered env (stack ++ f.below) values) :
    ∃ rest us vs, s' = f.state rest false ∧ values = us ++ vs ∧ Below env us ts.reverse ∧
      Covered env (rest ++ f.below) vs := popReversed_covered h hc

/-- Where all types are known, operands that are popped and pushed again stay as they are recorded. -/
lemma popThenPushLoop_covered {stack' : List StackType}
    (h : popThenPushLoop env (f.block false) ts (stack ++ f.below) = some stack')
    (hc : Covered env (stack ++ f.below) values) :
    stack' = stack ++ f.below ∧ ∃ top rest us vs, stack = top ++ rest ∧ top.length = ts.length ∧
      values = us ++ vs ∧ Below env us ts ∧ Covered env (rest ++ f.below) vs := by
  induction ts generalizing stack stack' values with
  | nil => exact ⟨(some.inj h).symm, [], stack, [], values, rfl, rfl, rfl, .nil, hc⟩
  | cons t ts ih =>
    rw [popThenPushLoop.eq_def] at h
    cases stack with
    | nil =>
      replace h := (if_pos rfl).symm.trans h
      cases h
    | cons type stack =>
      have hlength : ¬ (type :: stack ++ f.below).length = f.below.length := by
        rw [cons_append, length_cons, List.length_append]
        omega
      replace h := (if_neg hlength).symm.trans h
      cases hc with
      | cons hv hc =>
        obtain ⟨t', rfl, hv⟩ := hv
        change (if env.checkIsSubtypeOf t' t = true then _ else none) = _ at h
        by_cases hcheck : env.checkIsSubtypeOf t' t = true
        · rw [if_pos hcheck] at h
          obtain ⟨stack₁, hloop, rfl⟩ := map_eq_some_iff.1 h
          obtain ⟨rfl, top, rest, us, vs, rfl, hlength, rfl, hus, hc⟩ := ih hloop hc
          exact ⟨rfl, _ :: top, rest, _ :: us, vs, rfl, congrArg Nat.succ hlength, rfl,
            .cons (checkIsSubtypeOf_trans hv hcheck) hus, hc⟩
        · rw [if_neg hcheck] at h
          cases h

lemma popThenPushType_covered (h : popThenPushType env ts (f.state stack false) = some s')
    (hc : Covered env (stack ++ f.below) values) :
    s' = f.state stack false ∧ ∃ top rest us vs, stack = top ++ rest ∧ top.length = ts.length ∧
      values = us ++ vs ∧ Below env us ts.reverse ∧ Covered env (rest ++ f.below) vs := by
  obtain ⟨stack', hloop, h⟩ := bind_eq_some_iff.1 h
  obtain ⟨rfl, top, rest, us, vs, hstack, hlength, hvalues, hus, hc⟩ := popThenPushLoop_covered (f := f) hloop hc
  rw [length_reverse] at hlength
  exact ⟨(some.inj h).symm, top, rest, us, vs, hstack, hlength, hvalues, hus, hc⟩

/-! ## Locals -/

lemma Below.get (h : Below env locs locals) {id : ℕ} {v : ValType} (hv : locs[id]? = some v)
    (ht : locals[id]? = some t) : env.checkIsSubtypeOf v t = true := by
  induction h generalizing id with
  | nil => cases hv
  | cons hab _ ih =>
    cases id with
    | zero =>
      rw [← some.inj hv, ← some.inj ht]
      exact hab
    | succ id => exact ih hv ht

lemma Below.set (h : Below env locs locals) {id : ℕ} {v : ValType} (ht : locals[id]? = some t)
    (hv : env.checkIsSubtypeOf v t = true) : Below env (locs.set id v) locals := by
  induction h generalizing id with
  | nil => exact .nil
  | cons hab hrest ih =>
    cases id with
    | zero =>
      rw [← some.inj ht] at hv
      exact .cons hv hrest
    | succ id => exact .cons hab (ih ht)

/-! ## Operations -/

lemma selectType_val {t t' : ValType} {type : StackType} (h : selectType (.val t) (.val t') = some type) :
    type = .val t ∧ t = t' := by
  unfold selectType at h
  by_cases hvalid : (val t).isValidForUntypedSelect = true ∧ (val t').isValidForUntypedSelect = true
  · rw [if_pos hvalid, if_neg (fun h => nomatch h)] at h
    by_cases heq : val t' = .tvar ∨ val t = .val t'
    · rw [if_pos heq] at h
      refine ⟨(some.inj h).symm, ?_⟩
      rcases heq with heq | heq
      · cases heq
      · exact val.inj heq
    · rw [if_neg heq] at h
      cases h
  · rw [if_neg hvalid] at h
    cases h

/-- The state after an operation, and the types of the values. -/
def Matched (env : ModuleEnvironment) (locals : List ValType) (f : Frame) (s' : OpIter)
    (values locs : List ValType) : Prop :=
  ∃ stack, s' = f.state stack false ∧ Covered env (stack ++ f.below) values ∧ Below env locs locals

/-- The operands are replaced by one value. -/
lemma matched_push {v : ValType} (hc : Covered env (stack ++ f.below) values)
    (hv : env.checkIsSubtypeOf v t = true) (hl : Below env locs locals) :
    Matched env locals f ((f.state stack false).push t) (v :: values) locs :=
  ⟨.val t :: stack, rfl, hc.push hv, hl⟩

lemma matched_popPush {t' v : ValType} (h : ((popWithType env t (f.state stack false)).bind fun s =>
      some (s.push t')) = some s') {u : ValType} (hc : Covered env (stack ++ f.below) (u :: values))
    (hv : env.checkIsSubtypeOf v t' = true) (hl : Below env locs locals) :
    Matched env locals f s' (v :: values) locs := by
  obtain ⟨s₁, hpop, h⟩ := bind_eq_some_iff.1 h
  obtain ⟨rest, _, _, rfl, heq, -, hc⟩ := popWithType_covered hpop hc
  rw [← (List.cons.inj heq).2] at hc
  rw [← some.inj h]
  exact matched_push hc hv hl

/-- Several operands are replaced by values. -/
lemma matched_popTypes {ts' us us' : List ValType} (hlength : us.length = ts.length)
    (h : ((popTypes env ts (f.state stack false)).bind fun s => some (s.pushTypes ts')) = some s')
    (hc : Covered env (stack ++ f.below) (us ++ values)) (hus : Below env us' ts')
    (hl : Below env locs locals) : Matched env locals f s' (us'.reverse ++ values) locs := by
  obtain ⟨s₁, hpop, h⟩ := bind_eq_some_iff.1 h
  obtain ⟨rest, us₁, vs, rfl, heq, hus₁, hc⟩ := popTypes_covered hpop hc
  have hlength' : us.length = us₁.length := by
    simp [hlength, hus₁.length_eq]
  obtain ⟨-, rfl⟩ := append_inj heq hlength'
  rw [← some.inj h]
  have hrev : Below env us'.reverse ts'.reverse := forall₂_reverse_iff.2 hus
  refine ⟨ts'.reverse.map val ++ rest, ?_, ?_, hl⟩
  · unfold Frame.state
    rw [append_assoc]
    rfl
  · rw [append_assoc]
    exact hc.pushTypes hrev

lemma matched_popTypes_push (us : List ValType) {v : ValType} (hlength : us.length = ts.length)
    (h : ((popTypes env ts (f.state stack false)).bind fun s => some (s.push t)) = some s')
    (hc : Covered env (stack ++ f.below) (us ++ values)) (hv : env.checkIsSubtypeOf v t = true)
    (hl : Below env locs locals) : Matched env locals f s' (v :: values) locs :=
  matched_popTypes hlength h hc (show Below env [v] [t] from .cons hv .nil) hl

lemma readSelectOperands_covered (h : readSelectOperands (f.state stack false) = some s')
    {v v' : ValType} (hc : Covered env (stack ++ f.below) (v :: v' :: values))
    (hl : Below env locs locals) :
    Matched env locals f s' (v :: values) locs ∧ Matched env locals f s' (v' :: values) locs := by
  obtain ⟨⟨falseType, s₁⟩, hfalse, h⟩ := bind_eq_some_iff.1 h
  obtain ⟨t, rest, _, _, rfl, rfl, -, heq, hv, hc⟩ := popStackType_covered hfalse hc
  cases heq
  obtain ⟨⟨trueType, s₂⟩, htrue, h⟩ := bind_eq_some_iff.1 h
  obtain ⟨t', rest', _, _, rfl, rfl, -, heq, hv', hc⟩ := popStackType_covered htrue hc
  cases heq
  obtain ⟨type, hselect, hresult⟩ := bind_eq_some_iff.1 h
  obtain ⟨rfl, rfl⟩ := selectType_val hselect
  rw [← some.inj hresult]
  exact ⟨matched_push hc hv hl, matched_push hc hv' hl⟩

lemma readSelectTyped_covered {n : ℕ} (h : readSelectTyped env n t (f.state stack false) = some s')
    {c v v' : ValType} (hc : Covered env (stack ++ f.below) (c :: v :: v' :: values))
    (hl : Below env locs locals) :
    Matched env locals f s' (v :: values) locs ∧ Matched env locals f s' (v' :: values) locs := by
  change (if env.refTypesEnabled = true ∧ n = 1 ∧ env.readValType t = true then _ else none) = _ at h
  by_cases hvalid : env.refTypesEnabled = true ∧ n = 1 ∧ env.readValType t = true
  · rw [if_pos hvalid] at h
    obtain ⟨s₁, hpop, h⟩ := bind_eq_some_iff.1 h
    obtain ⟨rest, us, vs, rfl, heq, hus, hrest⟩ := popTypes_covered hpop hc
    cases hus with
    | cons _ hus => cases hus with
      | cons hv hus => cases hus with
        | cons hv' hus => cases hus with
          | nil =>
            cases heq
            rw [← some.inj h]
            exact ⟨matched_push hrest hv hl, matched_push hrest hv' hl⟩
  · rw [if_neg hvalid] at h
    cases h

/-- An operation that does not jump. -/
theorem opStep_matched {o : Op} (hstep : OpIter.step env locals (f.state stack false) o = some s')
    (hc : Covered env (stack ++ f.below) values) (hl : Below env locs locals)
    (hop : OpStep env o values locs values' locs') : Matched env locals f s' values' locs' := by
  cases hop with
  | drop v vs =>
    obtain ⟨⟨type, s₁⟩, hpop, h⟩ := bind_eq_some_iff.1 hstep
    obtain ⟨_, rest, _, _, rfl, rfl, -, heq, -, hc⟩ := popStackType_covered hpop hc
    rw [← (List.cons.inj heq).2] at hc
    exact ⟨rest, (some.inj h).symm, hc, hl⟩
  | selectFalse c v v' vs =>
    obtain ⟨s₁, hpop, h⟩ := bind_eq_some_iff.1 hstep
    obtain ⟨rest, _, _, rfl, heq, -, hc⟩ := popWithType_covered hpop hc
    rw [← (List.cons.inj heq).2] at hc
    exact (readSelectOperands_covered h hc hl).1
  | selectTrue c v v' vs =>
    obtain ⟨s₁, hpop, h⟩ := bind_eq_some_iff.1 hstep
    obtain ⟨rest, _, _, rfl, heq, -, hc⟩ := popWithType_covered hpop hc
    rw [← (List.cons.inj heq).2] at hc
    exact (readSelectOperands_covered h hc hl).2
  | selectTypedFalse n t c v v' vs => exact (readSelectTyped_covered hstep hc hl).1
  | selectTypedTrue n t c v v' vs => exact (readSelectTyped_covered hstep hc hl).2
  | getLocal hv =>
    obtain ⟨t, ht, h⟩ := bind_eq_some_iff.1 hstep
    rw [← some.inj h]
    exact matched_push hc (hl.get hv ht) hl
  | setLocal id v =>
    obtain ⟨t, ht, h⟩ := bind_eq_some_iff.1 hstep
    obtain ⟨rest, _, _, rfl, heq, hv, hc⟩ := popWithType_covered h hc
    cases heq
    exact ⟨rest, rfl, hc, hl.set ht hv⟩
  | teeLocal id v =>
    obtain ⟨t, ht, h⟩ := bind_eq_some_iff.1 hstep
    obtain ⟨rfl, top, rest, us, vs, -, -, heq, hus, -⟩ := popThenPushType_covered h hc
    cases hus with
    | cons hv hus =>
      cases heq
      exact ⟨stack, rfl, hc, hl.set ht hv⟩
  | @call i type args results hi hargs hresults =>
    obtain ⟨type', hi', h⟩ := bind_eq_some_iff.1 hstep
    rw [hi] at hi'
    rw [← some.inj hi'] at h
    exact matched_popTypes hargs h hc hresults hl
  | const n =>
    rw [← some.inj hstep]
    exact matched_push hc (checkIsSubtypeOf_refl _) hl
  | unary n v => exact matched_popPush hstep hc (checkIsSubtypeOf_refl _) hl
  | binary n v v' =>
    have hlength : [v, v'].length = [ValType.num n, .num n].length := rfl
    exact matched_popTypes_push [v, v'] hlength hstep hc (checkIsSubtypeOf_refl _) hl
  | comparison n v v' =>
    have hlength : [v, v'].length = [ValType.num n, .num n].length := rfl
    exact matched_popTypes_push [v, v'] hlength hstep hc (checkIsSubtypeOf_refl _) hl
  | conversion n n' v => exact matched_popPush hstep hc (checkIsSubtypeOf_refl _) hl
  | refNull t =>
    change (if env.readRefType t = true then _ else none) = _ at hstep
    by_cases ht : env.readRefType t = true
    · rw [if_pos ht] at hstep
      rw [← some.inj hstep]
      exact matched_push hc (checkIsSubtypeOf_refl _) hl
    · rw [if_neg ht] at hstep
      cases hstep
  | refIsNull v =>
    obtain ⟨s₁, hpop, h⟩ := bind_eq_some_iff.1 hstep
    obtain ⟨⟨type, s₂⟩, hpop, hcheck⟩ := bind_eq_some_iff.1 hpop
    obtain ⟨t, rest, _, _, rfl, rfl, -, heq, -, hc⟩ := popStackType_covered hpop hc
    rw [← (List.cons.inj heq).2] at hc
    change (if t.isReference = true then some (f.state rest false) else none) = some s₁ at hcheck
    by_cases ht : t.isReference = true
    · rw [if_pos ht] at hcheck
      rw [← some.inj h, ← some.inj hcheck]
      exact matched_push hc (checkIsSubtypeOf_refl _) hl
    · rw [if_neg ht] at hcheck
      cases hcheck
  | structNew hi hargs =>
    obtain ⟨fields', hi', h⟩ := bind_eq_some_iff.1 hstep
    rw [hi] at hi'
    rw [← some.inj hi'] at h
    exact matched_popTypes_push _ (hargs.trans (length_map _).symm) h hc (checkIsSubtypeOf_refl _) hl
  | structGet hi hj hv =>
    obtain ⟨fields', hi', h⟩ := bind_eq_some_iff.1 hstep
    rw [hi] at hi'
    rw [← some.inj hi'] at h
    obtain ⟨field', hj', h⟩ := bind_eq_some_iff.1 h
    rw [hj] at hj'
    rw [← some.inj hj'] at h
    exact matched_popPush h hc hv hl
  | structSet i j v v' =>
    obtain ⟨fields, -, h⟩ := bind_eq_some_iff.1 hstep
    obtain ⟨field, -, h⟩ := bind_eq_some_iff.1 h
    obtain ⟨s₁, hpop, h⟩ := bind_eq_some_iff.1 h
    obtain ⟨rest, _, _, rfl, heq, -, hc⟩ := popWithType_covered hpop hc
    rw [← (List.cons.inj heq).2] at hc
    by_cases hmutable : field.isMutable = true
    · rw [if_pos hmutable] at h
      obtain ⟨rest', _, _, rfl, heq, -, hc⟩ := popWithType_covered h hc
      rw [← (List.cons.inj heq).2] at hc
      exact ⟨rest', rfl, hc, hl⟩
    · rw [if_neg hmutable] at h
      cases h
  | @structNarrow t t' v hv =>
    change (if _ then _ else none) = _ at hstep
    split at hstep
    · exact matched_popPush hstep hc hv hl
    · cases hstep
  | structNarrowNull t t' v =>
    change (if _ then _ else none) = _ at hstep
    split at hstep
    · exact matched_popPush hstep hc (checkIsSubtypeOf_refl _) hl
    · cases hstep

end SpiderMonkey.Wasm
