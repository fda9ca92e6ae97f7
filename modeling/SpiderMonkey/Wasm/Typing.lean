import SpiderMonkey.Wasm.OpIter

/-!
# Typing of function bodies over the numeric types

The rules of the specification: an instruction has a type from a list of parameters to a list of results,
of which the last is the topmost, and a sequence may be typed with more operands below.  Instructions
after which no code is reached have any parameters below and any results.
-/

namespace SpiderMonkey.Wasm

/-! ## Instructions -/

/-- A sequence of instructions; `plain` is for those that have no instructions in them. -/
inductive Expr
  | nil
  | plain (op : Op) (rest : Expr)
  | block (t : BlockTypeCode) (body rest : Expr)
  | loop (t : BlockTypeCode) (body rest : Expr)
  | ifThen (t : BlockTypeCode) (thenBody rest : Expr)
  | ifElse (t : BlockTypeCode) (thenBody elseBody rest : Expr)

/-- The operations of a sequence, as they are encoded. -/
def Expr.ops : Expr → List Op
  | .nil => []
  | .plain op rest => op :: rest.ops
  | .block t body rest => .block t :: (body.ops ++ .end :: rest.ops)
  | .loop t body rest => .loop t :: (body.ops ++ .end :: rest.ops)
  | .ifThen t thenBody rest => .if t :: (thenBody.ops ++ .end :: rest.ops)
  | .ifElse t thenBody elseBody rest =>
    .if t :: (thenBody.ops ++ .else :: (elseBody.ops ++ .end :: rest.ops))

/-! ## The rules -/

structure Context where
  env : ModuleEnvironment
  locals : List ValType
  /-- The types of what a branch to each label passes, the innermost label first. -/
  labels : List (List NumType)
  result : List NumType

def Context.label (C : Context) (ts : List NumType) : Context := { C with labels := ts :: C.labels }

def numFuncType (params results : List NumType) : FuncType := ⟨params.map .num, results.map .num⟩

inductive BlockTyped (env : ModuleEnvironment) : BlockTypeCode → List NumType → List NumType → Prop
  | void : BlockTyped env .void [] []
  | single (t : NumType) : BlockTyped env (.single (.num t)) [] [t]
  | index {x : ℕ} {params results : List NumType} (henabled : env.multiValuesEnabled = true)
      (hx : env.types[x]? = some (.func (numFuncType params results))) :
      BlockTyped env (.index x) params results

inductive OpTyped (C : Context) : Op → List NumType → List NumType → Prop
  | unreachable (ts ts' : List NumType) : OpTyped C .unreachable ts ts'
  | drop (t : NumType) : OpTyped C .drop [t] []
  | select (t : NumType) : OpTyped C .select [t, t, .i32] [t]
  | selectTyped (t : NumType) (henabled : C.env.refTypesEnabled = true) :
      OpTyped C (.selectTyped 1 (.num t)) [t, t, .i32] [t]
  | getLocal {id : ℕ} {t : NumType} (ht : C.locals[id]? = some (.num t)) : OpTyped C (.getLocal id) [] [t]
  | setLocal {id : ℕ} {t : NumType} (ht : C.locals[id]? = some (.num t)) : OpTyped C (.setLocal id) [t] []
  | teeLocal {id : ℕ} {t : NumType} (ht : C.locals[id]? = some (.num t)) : OpTyped C (.teeLocal id) [t] [t]
  | call {funcIndex : ℕ} {params results : List NumType}
      (ht : C.env.funcTypes[funcIndex]? = some (numFuncType params results)) :
      OpTyped C (.call funcIndex) params results
  | const (t : NumType) : OpTyped C (.const t) [] [t]
  | unary (t : NumType) : OpTyped C (.unary t) [t] [t]
  | binary (t : NumType) : OpTyped C (.binary t) [t, t] [t]
  | comparison (t : NumType) : OpTyped C (.comparison t) [t, t] [.i32]
  | conversion (t t' : NumType) : OpTyped C (.conversion t t') [t] [t']
  | br {l : ℕ} {ts : List NumType} (hts : C.labels[l]? = some ts) (below ts' : List NumType) :
      OpTyped C (.br l) (below ++ ts) ts'
  | brIf {l : ℕ} {ts : List NumType} (hts : C.labels[l]? = some ts) : OpTyped C (.brIf l) (ts ++ [NumType.i32]) ts
  | brTable {ls : List ℕ} {l : ℕ} {ts : List NumType}
      (hts : ∀ l' ∈ ls ++ [l], C.labels[l']? = some ts) (below ts' : List NumType) :
      OpTyped C (.brTable ls l) (below ++ ts ++ [NumType.i32]) ts'
  | return (below ts' : List NumType) : OpTyped C .return (below ++ C.result) ts'

/-- A sequence has a type.  An `if` without `else` has an empty sequence for it. -/
inductive Typed : Context → Expr → List NumType → List NumType → Prop
  | nil {C : Context} (ts : List NumType) : Typed C .nil ts ts
  | plain {C : Context} {op : Op} {rest : Expr} {below params results ts : List NumType}
      (hop : OpTyped C op params results) (hrest : Typed C rest (below ++ results) ts) :
      Typed C (.plain op rest) (below ++ params) ts
  | block {C : Context} {t : BlockTypeCode} {body rest : Expr}
      {below params results ts : List NumType} (ht : BlockTyped C.env t params results)
      (hbody : Typed (C.label results) body params results)
      (hrest : Typed C rest (below ++ results) ts) :
      Typed C (.block t body rest) (below ++ params) ts
  | loop {C : Context} {t : BlockTypeCode} {body rest : Expr}
      {below params results ts : List NumType} (ht : BlockTyped C.env t params results)
      (hbody : Typed (C.label params) body params results)
      (hrest : Typed C rest (below ++ results) ts) :
      Typed C (.loop t body rest) (below ++ params) ts
  | ifThen {C : Context} {t : BlockTypeCode} {thenBody rest : Expr}
      {below params results ts : List NumType} (ht : BlockTyped C.env t params results)
      (hthen : Typed (C.label results) thenBody params results)
      (helse : Typed (C.label results) .nil params results)
      (hrest : Typed C rest (below ++ results) ts) :
      Typed C (.ifThen t thenBody rest) (below ++ params ++ [NumType.i32]) ts
  | ifElse {C : Context} {t : BlockTypeCode} {thenBody elseBody rest : Expr}
      {below params results ts : List NumType} (ht : BlockTyped C.env t params results)
      (hthen : Typed (C.label results) thenBody params results)
      (helse : Typed (C.label results) elseBody params results)
      (hrest : Typed C rest (below ++ results) ts) :
      Typed C (.ifElse t thenBody elseBody rest) (below ++ params ++ [NumType.i32]) ts

variable (env : ModuleEnvironment)

def bodyContext (locals : List ValType) (results : List NumType) : Context :=
  ⟨env, locals, [results], results⟩

/-- The body encodes a sequence that has the type of the function. -/
def Typable (locals : List ValType) (results : List NumType) (body : List Op) : Prop :=
  ∃ e : Expr, body = e.ops ++ [Op.end] ∧ Typed (bodyContext env locals results) e [] results

/-! ## Bodies over the numeric types -/

def ValType.IsNumeric (t : ValType) : Prop := ∃ n, t = .num n

lemma exists_map_num {ts : List ValType} (h : ∀ t ∈ ts, t.IsNumeric) : ∃ ns : List NumType, ts = ns.map .num := by
  induction ts with
  | nil => exact ⟨[], rfl⟩
  | cons t ts ih =>
    obtain ⟨n, rfl⟩ := h t List.mem_cons_self
    obtain ⟨ns, rfl⟩ := ih fun t ht => h t (List.mem_cons_of_mem _ ht)
    exact ⟨n :: ns, rfl⟩

lemma map_num_injective {ns ns' : List NumType} (h : ns.map ValType.num = ns'.map ValType.num) : ns = ns' :=
  List.map_injective_iff.2 (fun _ _ => ValType.num.inj) h

/-- All types that the operation refers to are numeric. -/
def Op.IsNumeric (locals : List ValType) : Op → Prop
  | .block t | .loop t | .if t => ∀ type, OpIter.readBlockType env t = some type →
      (∀ t ∈ type.params, t.IsNumeric) ∧ ∀ t ∈ type.results, t.IsNumeric
  | .selectTyped _ t => t.IsNumeric
  | .getLocal id | .setLocal id | .teeLocal id => ∀ t, locals[id]? = some t → t.IsNumeric
  | .call funcIndex => ∀ type, env.funcTypes[funcIndex]? = some type →
      (∀ t ∈ type.args, t.IsNumeric) ∧ ∀ t ∈ type.results, t.IsNumeric
  | .refNull _ | .refIsNull | .structNew _ | .structGet _ _ | .structSet _ _ | .structNarrow _ _ =>
    False
  | _ => True

/-- Is a table of a `br_table` of a size that is allowed? -/
def Op.TableFits : Op → Prop
  | .brTable depths _ => depths.length ≤ MaxBrTableElems
  | _ => True

end SpiderMonkey.Wasm
