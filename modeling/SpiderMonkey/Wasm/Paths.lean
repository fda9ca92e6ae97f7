import SpiderMonkey.Wasm.OpIter
import Mathlib.Logic.Relation

/-!
# Execution paths through a function body

A path takes the operations that are executed one after the other.  Of each operand and each local it says
which type the value has that is there, which may be any subtype of the declared one where the value comes
from elsewhere.
-/

namespace SpiderMonkey.Wasm

/-! ## Where branches go -/

/-- The operations from the end of the innermost open block on, or from its `else` on if that comes
first and `orElse` is set.  There are `depth` more blocks to be closed before. -/
def skip (orElse : Bool) : ℕ → List Op → List Op
  | _, [] => []
  | depth, .block _ :: ops => skip orElse (depth + 1) ops
  | depth, .loop _ :: ops => skip orElse (depth + 1) ops
  | depth, .if _ :: ops => skip orElse (depth + 1) ops
  | 0, .else :: ops => if orElse = true then .else :: ops else skip orElse 0 ops
  | 0, .end :: ops => .end :: ops
  | depth + 1, .end :: ops => skip orElse depth ops
  | depth, _ :: ops => skip orElse depth ops

/-- The operations after the end of the innermost open block. -/
def afterEnd (ops : List Op) : List Op := (skip false 0 ops).tail

structure Label where
  isLoop : Bool
  /-- How many values a branch passes. -/
  arity : ℕ
  /-- How many values there are below. -/
  height : ℕ
  target : List Op

def blockLabel (type : BlockType) (values : List ValType) (rest : List Op) : Label :=
  ⟨false, type.results.length, values.length - type.params.length, afterEnd rest⟩

def loopLabel (type : BlockType) (values : List ValType) (rest : List Op) : Label :=
  ⟨true, type.params.length, values.length - type.params.length, rest⟩

/-! ## Paths -/

structure Path where
  /-- The operations to come, if no branch is taken. -/
  rest : List Op
  /-- The types of the values on the stack, the topmost first. -/
  values : List ValType
  locals : List ValType
  labels : List Label

variable (env : ModuleEnvironment)

/-- What the operations that do not jump do to the types of the values, and of the locals. -/
inductive OpStep : Op → List ValType → List ValType → List ValType → List ValType → Prop
  | drop (v : ValType) (vs locs : List ValType) : OpStep .drop (v :: vs) locs vs locs
  | selectFalse (c v v' : ValType) (vs locs : List ValType) : OpStep .select (c :: v :: v' :: vs) locs (v :: vs) locs
  | selectTrue (c v v' : ValType) (vs locs : List ValType) : OpStep .select (c :: v :: v' :: vs) locs (v' :: vs) locs
  | selectTypedFalse (n : ℕ) (t c v v' : ValType) (vs locs : List ValType) :
      OpStep (.selectTyped n t) (c :: v :: v' :: vs) locs (v :: vs) locs
  | selectTypedTrue (n : ℕ) (t c v v' : ValType) (vs locs : List ValType) :
      OpStep (.selectTyped n t) (c :: v :: v' :: vs) locs (v' :: vs) locs
  | getLocal {id : ℕ} {v : ValType} {locs : List ValType} (hv : locs[id]? = some v) (vs : List ValType) :
      OpStep (.getLocal id) vs locs (v :: vs) locs
  | setLocal (id : ℕ) (v : ValType) (vs locs : List ValType) : OpStep (.setLocal id) (v :: vs) locs vs (locs.set id v)
  | teeLocal (id : ℕ) (v : ValType) (vs locs : List ValType) :
      OpStep (.teeLocal id) (v :: vs) locs (v :: vs) (locs.set id v)
  | call {i : ℕ} {type : FuncType} {args results : List ValType} (hi : env.funcTypes[i]? = some type)
      (hargs : args.length = type.args.length)
      (hresults : List.Forall₂ (fun v t => env.checkIsSubtypeOf v t = true) results type.results)
      (vs locs : List ValType) :
      OpStep (.call i) (args ++ vs) locs (results.reverse ++ vs) locs
  | const (t : NumType) (vs locs : List ValType) : OpStep (.const t) vs locs (.num t :: vs) locs
  | unary (t : NumType) (v : ValType) (vs locs : List ValType) : OpStep (.unary t) (v :: vs) locs (.num t :: vs) locs
  | binary (t : NumType) (v v' : ValType) (vs locs : List ValType) :
      OpStep (.binary t) (v :: v' :: vs) locs (.num t :: vs) locs
  | comparison (t : NumType) (v v' : ValType) (vs locs : List ValType) :
      OpStep (.comparison t) (v :: v' :: vs) locs (.i32 :: vs) locs
  | conversion (t t' : NumType) (v : ValType) (vs locs : List ValType) :
      OpStep (.conversion t t') (v :: vs) locs (.num t' :: vs) locs
  | refNull (t : ValType) (vs locs : List ValType) : OpStep (.refNull t) vs locs (t :: vs) locs
  | refIsNull (v : ValType) (vs locs : List ValType) : OpStep .refIsNull (v :: vs) locs (.i32 :: vs) locs
  | structNew {i : ℕ} {fields : List StructField} {args : List ValType}
      (hi : env.structFields i = some fields) (hargs : args.length = fields.length)
      (vs locs : List ValType) : OpStep (.structNew i) (args ++ vs) locs (.ref i :: vs) locs
  | structGet {i j : ℕ} {fields : List StructField} {field : StructField} {v' : ValType}
      (hi : env.structFields i = some fields) (hj : fields[j]? = some field)
      (hv : env.checkIsSubtypeOf v' field.type = true) (v : ValType) (vs locs : List ValType) :
      OpStep (.structGet i j) (v :: vs) locs (v' :: vs) locs
  | structSet (i j : ℕ) (v v' : ValType) (vs locs : List ValType) : OpStep (.structSet i j) (v :: v' :: vs) locs vs locs
  | structNarrow {t t' v : ValType} (hv : env.checkIsSubtypeOf v t' = true) (vs locs : List ValType) :
      OpStep (.structNarrow t t') (v :: vs) locs (v :: vs) locs
  /-- A value of another type is replaced by null. -/
  | structNarrowNull (t t' v : ValType) (vs locs : List ValType) :
      OpStep (.structNarrow t t') (v :: vs) locs (t' :: vs) locs

/-- A branch keeps the values that it passes and those below the block. -/
def branchTo (relativeDepth : ℕ) (label : Label) (values locals : List ValType) (labels : List Label) : Path where
  rest := label.target
  values := values.take label.arity ++ values.drop (values.length - label.height)
  locals := locals
  labels := labels.drop (if label.isLoop = true then relativeDepth else relativeDepth + 1)

inductive PathStep : Path → Path → Prop
  | op {op : Op} {vs locs vs' locs' : List ValType} (h : OpStep env op vs locs vs' locs')
      (rest : List Op) (labels : List Label) :
      PathStep ⟨op :: rest, vs, locs, labels⟩ ⟨rest, vs', locs', labels⟩
  | block {t : BlockTypeCode} {type : BlockType} (ht : OpIter.readBlockType env t = some type)
      (rest : List Op) (vs locs : List ValType) (labels : List Label) :
      PathStep ⟨.block t :: rest, vs, locs, labels⟩ ⟨rest, vs, locs, blockLabel type vs rest :: labels⟩
  | loop {t : BlockTypeCode} {type : BlockType} (ht : OpIter.readBlockType env t = some type)
      (rest : List Op) (vs locs : List ValType) (labels : List Label) :
      PathStep ⟨.loop t :: rest, vs, locs, labels⟩ ⟨rest, vs, locs, loopLabel type vs rest :: labels⟩
  | ifTrue {t : BlockTypeCode} {type : BlockType} (ht : OpIter.readBlockType env t = some type)
      (rest : List Op) (c : ValType) (vs locs : List ValType) (labels : List Label) :
      PathStep ⟨.if t :: rest, c :: vs, locs, labels⟩ ⟨rest, vs, locs, blockLabel type vs rest :: labels⟩
  | ifFalse {t : BlockTypeCode} {type : BlockType} (ht : OpIter.readBlockType env t = some type)
      {rest rest' : List Op} (hrest : skip true 0 rest = .else :: rest') (c : ValType)
      (vs locs : List ValType) (labels : List Label) :
      PathStep ⟨.if t :: rest, c :: vs, locs, labels⟩ ⟨rest', vs, locs, blockLabel type vs rest :: labels⟩
  /-- There is no `else`. -/
  | ifSkip {t : BlockTypeCode} {rest rest' : List Op} (hrest : skip true 0 rest = .end :: rest')
      (c : ValType) (vs locs : List ValType) (labels : List Label) :
      PathStep ⟨.if t :: rest, c :: vs, locs, labels⟩ ⟨rest', vs, locs, labels⟩
  /-- The end of the `then` block. -/
  | else (rest : List Op) (vs locs : List ValType) (label : Label) (labels : List Label) :
      PathStep ⟨.else :: rest, vs, locs, label :: labels⟩ ⟨label.target, vs, locs, labels⟩
  | end (rest : List Op) (vs locs : List ValType) (label : Label) (labels : List Label) :
      PathStep ⟨.end :: rest, vs, locs, label :: labels⟩ ⟨rest, vs, locs, labels⟩
  | br {l : ℕ} {label : Label} {labels : List Label} (hl : labels[l]? = some label) (rest : List Op)
      (vs locs : List ValType) :
      PathStep ⟨.br l :: rest, vs, locs, labels⟩ (branchTo l label vs locs labels)
  | brIf {l : ℕ} {label : Label} {labels : List Label} (hl : labels[l]? = some label) (rest : List Op)
      (c : ValType) (vs locs : List ValType) :
      PathStep ⟨.brIf l :: rest, c :: vs, locs, labels⟩ (branchTo l label vs locs labels)
  | brIfNot (l : ℕ) (rest : List Op) (c : ValType) (vs locs : List ValType) (labels : List Label) :
      PathStep ⟨.brIf l :: rest, c :: vs, locs, labels⟩ ⟨rest, vs, locs, labels⟩
  | brTable {ls : List ℕ} {d l : ℕ} (hmem : l ∈ ls ++ [d]) {label : Label} {labels : List Label}
      (hl : labels[l]? = some label) (rest : List Op) (c : ValType) (vs locs : List ValType) :
      PathStep ⟨.brTable ls d :: rest, c :: vs, locs, labels⟩ (branchTo l label vs locs labels)
  | return {label : Label} {labels : List Label} (hl : labels.getLast? = some label) (rest : List Op)
      (vs locs : List ValType) :
      PathStep ⟨.return :: rest, vs, locs, labels⟩ (branchTo (labels.length - 1) label vs locs labels)

/-- The beginning of a call with these values in the locals. -/
def Path.start (results : List ValType) (body : List Op) (locs : List ValType) : Path :=
  ⟨body, [], locs, [⟨false, results.length, 0, afterEnd body⟩]⟩

/-- The path reaches this point. -/
def Path.Reachable (results : List ValType) (body : List Op) (locs : List ValType) (c : Path) : Prop :=
  Relation.ReflTransGen (PathStep env) (start results body locs) c

/-! ## Subtypes -/

namespace ModuleEnvironment

variable {env} {a b c : ValType}

lemma checkIsSubtypeOf_refl (t : ValType) : env.checkIsSubtypeOf t t = true := by
  unfold checkIsSubtypeOf
  simp

lemma hasPrefix_trans {fields fields' fields'' : List StructField}
    (h : hasPrefix fields fields' = true) (h' : hasPrefix fields' fields'' = true) :
    hasPrefix fields fields'' = true := by
  unfold hasPrefix at h h' ⊢
  rw [Bool.and_eq_true, decide_eq_true_iff, decide_eq_true_iff] at h h' ⊢
  refine ⟨h'.1.trans h.1, ?_⟩
  have htake := congrArg (List.take fields''.length) h.2
  rw [List.take_take, Nat.min_eq_left h'.1, h'.2] at htake
  exact htake

lemma isStructType_iff : env.isStructType a = true ↔ ∃ i fields, a = .ref i ∧ env.structFields i = some fields := by
  cases a with
  | ref i =>
    show (env.structFields i).isSome = true ↔ _
    rw [Option.isSome_iff_exists]
    simp
  | num t =>
    refine iff_of_false Bool.false_ne_true ?_
    simp
  | anyRef =>
    refine iff_of_false Bool.false_ne_true ?_
    simp
  | funcRef =>
    refine iff_of_false Bool.false_ne_true ?_
    simp

/-- A subtype is the type itself, or a struct type below `anyref` or below a prefix of it. -/
lemma checkIsSubtypeOf_iff : env.checkIsSubtypeOf a b = true ↔ a = b ∨ (env.gcTypesEnabled = true ∧
    ∃ i fields, a = .ref i ∧ env.structFields i = some fields ∧ (b = .anyRef ∨
      ∃ j fields', b = .ref j ∧ env.structFields j = some fields' ∧ hasPrefix fields fields' = true)) := by
  by_cases heq : a = b
  · rw [heq]
    exact iff_of_true (checkIsSubtypeOf_refl b) (.inl rfl)
  · have hcheck : env.checkIsSubtypeOf a b = (a.isReference && b.isReference && env.isRefSubtypeOf a b) := by
      unfold checkIsSubtypeOf
      simp [heq]
    rw [hcheck, or_iff_right heq, Bool.and_eq_true, Bool.and_eq_true]
    unfold isRefSubtypeOf
    rw [if_neg heq]
    by_cases henabled : env.gcTypesEnabled = true
    · rw [if_pos henabled]
      by_cases ha : env.isStructType a = true
      · obtain ⟨i, fields, rfl, hi⟩ := isStructType_iff.1 ha
        by_cases hb : b = .anyRef
        · subst hb
          rw [if_pos ⟨ha, rfl⟩]
          exact iff_of_true ⟨⟨rfl, rfl⟩, rfl⟩ ⟨henabled, i, fields, rfl, hi, .inl rfl⟩
        · rw [if_neg fun h => hb h.2]
          by_cases hb' : env.isStructType b = true
          · obtain ⟨j, fields', rfl, hj⟩ := isStructType_iff.1 hb'
            rw [if_pos ⟨ha, hb'⟩]
            have hfields₀ : env.isStructPrefixOf (.ref j) (.ref i) = hasPrefix fields fields' := by
              simp only [isStructPrefixOf, hi, hj]
            rw [hfields₀]
            constructor
            · simp [henabled, hi, hj]
            · rintro ⟨_, _, _, ⟨⟩, hi', h | ⟨_, _, ⟨⟩, hj', h⟩⟩
              · cases h
              · rw [hi] at hi'
                rw [hj] at hj'
                rw [Option.some.inj hi', Option.some.inj hj']
                exact ⟨⟨rfl, rfl⟩, h⟩
          · rw [if_neg fun h => hb' h.2]
            refine iff_of_false (fun h => Bool.false_ne_true h.2) ?_
            rintro ⟨_, _, _, _, _, h | ⟨j, fields', hbj, hj, _⟩⟩
            · exact hb h
            · exact hb' (isStructType_iff.2 ⟨j, fields', hbj, hj⟩)
      · rw [if_neg fun h => ha h.1, if_neg fun h => ha h.1]
        refine iff_of_false (fun h => Bool.false_ne_true h.2) ?_
        rintro ⟨_, i, fields, hai, hi, _⟩
        exact ha (isStructType_iff.2 ⟨i, fields, hai, hi⟩)
    · simp [henabled]

lemma checkIsSubtypeOf_trans (h : env.checkIsSubtypeOf a b = true) (h' : env.checkIsSubtypeOf b c = true) :
    env.checkIsSubtypeOf a c = true := by
  rcases checkIsSubtypeOf_iff.1 h with rfl | ⟨henabled, i, fields, rfl, hi, hb⟩
  · exact h'
  · rcases checkIsSubtypeOf_iff.1 h' with rfl | ⟨_, j, fields', rfl, hj, hc⟩
    · exact h
    · refine checkIsSubtypeOf_iff.2 (.inr ⟨henabled, i, fields, rfl, hi, ?_⟩)
      rcases hb with hb | ⟨j', fields'', hj', hfields'', hfields₀⟩
      · cases hb
      · rcases hc with rfl | ⟨k, fields₃, rfl, hk, hfields₀'⟩
        · exact .inl rfl
        · cases hj'
          rw [hj] at hfields''
          rw [← Option.some.inj hfields''] at hfields₀
          exact .inr ⟨k, fields₃, rfl, hk, hasPrefix_trans hfields₀ hfields₀'⟩

end ModuleEnvironment

end SpiderMonkey.Wasm
