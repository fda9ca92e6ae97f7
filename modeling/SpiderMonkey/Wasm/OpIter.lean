import Mathlib.Tactic

/-!
# The iterator over the operations of a function body

`OpIter` validates a function body while it is decoded: it keeps a stack of the types of the operands and
a stack of the open blocks.  Here the operations come decoded, with their immediates; the values that a
compiler attaches to operands and blocks are left out.

Stacks are lists with their tops first; lists of parameters and results are as they are written, with the
type of the topmost operand last.  `none` as a result is a failure.
-/

namespace SpiderMonkey.Wasm

/-! ## Types -/

inductive NumType
  | i32
  | i64
  | f32
  | f64
  deriving DecidableEq

inductive ValType
  | num (t : NumType)
  | anyRef
  | funcRef
  /-- An optional reference to a struct. -/
  | ref (typeIndex : ℕ)
  deriving DecidableEq

abbrev ValType.i32 : ValType := .num .i32

def ValType.isReference : ValType → Bool
  | .num _ => false
  | _ => true

structure FuncType where
  args : List ValType
  results : List ValType

structure StructField where
  type : ValType
  isMutable : Bool
  deriving DecidableEq

inductive TypeDef
  | func (t : FuncType)
  | struct (fields : List StructField)

structure ModuleEnvironment where
  types : List TypeDef
  funcTypes : List FuncType
  refTypesEnabled : Bool
  gcTypesEnabled : Bool
  multiValuesEnabled : Bool

def hasPrefix (fields other : List StructField) : Bool :=
  decide (other.length ≤ fields.length) && decide (fields.take other.length = other)

namespace ModuleEnvironment

variable (env : ModuleEnvironment)

def structFields (typeIndex : ℕ) : Option (List StructField) :=
  match env.types[typeIndex]? with
  | some (.struct fields) => some fields
  | _ => none

def isStructType : ValType → Bool
  | .ref typeIndex => (env.structFields typeIndex).isSome
  | _ => false

def isStructPrefixOf : ValType → ValType → Bool
  | .ref a, .ref b => match env.structFields a, env.structFields b with
    | some other, some fields => hasPrefix fields other
    | _, _ => false
  | _, _ => false

def isRefSubtypeOf (one two : ValType) : Bool :=
  if one = two then true
  else if env.gcTypesEnabled = true then
    if env.isStructType one = true ∧ two = .anyRef then true
    else if env.isStructType one = true ∧ env.isStructType two = true then
      env.isStructPrefixOf two one
    else false
  else false

def checkIsSubtypeOf (actual expected : ValType) : Bool :=
  decide (actual = expected) ||
    (actual.isReference && expected.isReference && env.isRefSubtypeOf actual expected)

/-- Is the type one that `Decoder::readValType` reads? -/
def readValType : ValType → Bool
  | .num _ => true
  | .anyRef | .funcRef => env.refTypesEnabled
  | .ref typeIndex => env.refTypesEnabled && env.gcTypesEnabled && (env.structFields typeIndex).isSome

/-- Is the type one that `Decoder::readRefType` reads? -/
def readRefType : ValType → Bool
  | .num _ => false
  | .anyRef | .funcRef => true
  | .ref typeIndex => env.gcTypesEnabled && (env.structFields typeIndex).isSome

end ModuleEnvironment

/-! ## Operations -/

/-- A block type as it is encoded. -/
inductive BlockTypeCode
  | void
  | single (t : ValType)
  | index (x : ℕ)

structure BlockType where
  params : List ValType
  results : List ValType

inductive Op
  | block (t : BlockTypeCode)
  | loop (t : BlockTypeCode)
  | if (t : BlockTypeCode)
  | else
  | end
  | br (relativeDepth : ℕ)
  | brIf (relativeDepth : ℕ)
  | brTable (depths : List ℕ) (defaultDepth : ℕ)
  | return
  | unreachable
  | drop
  | select
  /-- `length` is the number of types that the operation claims to have. -/
  | selectTyped (length : ℕ) (result : ValType)
  | getLocal (id : ℕ)
  | setLocal (id : ℕ)
  | teeLocal (id : ℕ)
  | call (funcIndex : ℕ)
  | const (t : NumType)
  | unary (operandType : NumType)
  | binary (operandType : NumType)
  | comparison (operandType : NumType)
  | conversion (operandType resultType : NumType)
  | refNull (type : ValType)
  | refIsNull
  | structNew (typeIndex : ℕ)
  | structGet (typeIndex fieldIndex : ℕ)
  | structSet (typeIndex fieldIndex : ℕ)
  | structNarrow (inputType outputType : ValType)

def MaxBrTableElems : ℕ := 1000000

/-! ## The state -/

inductive LabelKind
  | body
  | block
  | loop
  | then
  | else
  deriving DecidableEq

/-- The type of an operand; an operand of unreachable code may be of any type. -/
inductive StackType
  | tvar
  | val (t : ValType)
  deriving DecidableEq

def StackType.isValidForUntypedSelect : StackType → Bool
  | .tvar => true
  | .val (.num _) => true
  | .val _ => false

structure Control where
  kind : LabelKind
  type : BlockType
  valueStackBase : ℕ
  polymorphicBase : Bool

def Control.branchTargetType (c : Control) : List ValType :=
  if c.kind = .loop then c.type.params else c.type.results

structure OpIter where
  valueStack : List StackType
  elseParamStack : List StackType
  controlStack : List Control

namespace OpIter

variable (env : ModuleEnvironment)

/-! ## The stacks -/

def back (s : OpIter) : Option Control := s.controlStack.head?

def push (t : ValType) (s : OpIter) : OpIter :=
  { s with valueStack := .val t :: s.valueStack }

/-- Push the types of a list, of which the last comes to be the topmost. -/
def pushTypes (ts : List ValType) (s : OpIter) : OpIter :=
  { s with valueStack := ts.reverse.map .val ++ s.valueStack }

def popStackType (s : OpIter) : Option (StackType × OpIter) := do
  let block ← s.back
  if s.valueStack.length = block.valueStackBase then
    if block.polymorphicBase = true then some (.tvar, s) else none
  else match s.valueStack with
    | [] => none
    | type :: rest => some (type, { s with valueStack := rest })

def checkStackType (type : StackType) (expected : ValType) : Bool :=
  match type with
  | .tvar => true
  | .val actual => env.checkIsSubtypeOf actual expected

def popWithType (expected : ValType) (s : OpIter) : Option OpIter := do
  let (type, s) ← s.popStackType
  if checkStackType env type expected = true then some s else none

/-- Pops each of the expected types, the topmost of which comes first here. -/
def popReversed : List ValType → OpIter → Option OpIter
  | [], s => some s
  | t :: ts, s => do
    let s ← s.popWithType env t
    s.popReversed ts

/-- `popWithType` of a `ResultType`, and `popCallArgs`. -/
def popTypes (expected : List ValType) (s : OpIter) : Option OpIter :=
  s.popReversed env expected.reverse

def popWithRefType (s : OpIter) : Option OpIter := do
  let (type, s) ← s.popStackType
  match type with
  | .tvar => some s
  | .val t => if t.isReference = true then some s else none

/-- The loop of `popThenPushType`, where `stack` is what the stack would have been if the types above were
popped: what is missing in unreachable code is inserted, and an operand of any type gets the expected
one. -/
def popThenPushLoop (block : Control) : List ValType → List StackType → Option (List StackType)
  | [], stack => some stack
  | t :: ts, stack =>
    if stack.length = block.valueStackBase then
      if block.polymorphicBase = true then (popThenPushLoop block ts stack).map (.val t :: ·) else none
    else match stack with
      | [] => none
      | .tvar :: rest => (popThenPushLoop block ts rest).map (.val t :: ·)
      | .val observed :: rest =>
        if env.checkIsSubtypeOf observed t = true then
          (popThenPushLoop block ts rest).map (.val observed :: ·)
        else none

def popThenPushType (expected : List ValType) (s : OpIter) : Option OpIter := do
  let block ← s.back
  let stack ← popThenPushLoop env block expected.reverse s.valueStack
  some { s with valueStack := stack }

def shrinkTo (length : ℕ) (s : OpIter) : OpIter :=
  { s with valueStack := s.valueStack.drop (s.valueStack.length - length) }

def afterUnconditionalBranch (s : OpIter) : OpIter :=
  match s.controlStack with
  | [] => s
  | block :: outer =>
    { s.shrinkTo block.valueStackBase with
      controlStack := { block with polymorphicBase := true } :: outer }

/-! ## Blocks -/

def readBlockType : BlockTypeCode → Option BlockType
  | .void => some ⟨[], []⟩
  | .single t => if env.readValType t = true then some ⟨[], [t]⟩ else none
  | .index x =>
    if env.multiValuesEnabled = true then match env.types[x]? with
      | some (.func t) => some ⟨t.args, t.results⟩
      | _ => none
    else none

def pushEntry (kind : LabelKind) (type : BlockType) (s : OpIter) : OpIter :=
  { s with controlStack := ⟨kind, type, s.valueStack.length - type.params.length, false⟩ :: s.controlStack }

def pushControl (kind : LabelKind) (type : BlockType) (s : OpIter) : Option OpIter := do
  let s ← s.popThenPushType env type.params
  some (s.pushEntry kind type)

def checkStackAtEndOfBlock (s : OpIter) : Option OpIter := do
  let block ← s.back
  if block.type.results.length < s.valueStack.length - block.valueStackBase then none
  else s.popThenPushType env block.type.results

def getControl (relativeDepth : ℕ) (s : OpIter) : Option Control := s.controlStack[relativeDepth]?

/-- The state at the start of a function of this type; `BlockType::FuncResults` has no parameters. -/
def start (results : List ValType) : OpIter :=
  ⟨[], [], [⟨.body, ⟨[], results⟩, 0, false⟩]⟩

def readBlock (t : BlockTypeCode) (s : OpIter) : Option OpIter := do
  let type ← readBlockType env t
  s.pushControl env .block type

def readLoop (t : BlockTypeCode) (s : OpIter) : Option OpIter := do
  let type ← readBlockType env t
  s.pushControl env .loop type

def saveElseParams (nparams : ℕ) (s : OpIter) : OpIter :=
  { s with elseParamStack := s.valueStack.take nparams ++ s.elseParamStack }

def readIf (t : BlockTypeCode) (s : OpIter) : Option OpIter := do
  let type ← readBlockType env t
  let s ← s.popWithType env .i32
  let s ← s.pushControl env .then type
  some (s.saveElseParams type.params.length)

/-- The end of the `then` block: the parameters are there again for the `else` block. -/
def switchToElse (s : OpIter) : Option OpIter :=
  match s.controlStack with
  | [] => none
  | block :: outer =>
    let nparams := block.type.params.length
    some {
      valueStack := s.elseParamStack.take nparams ++ (s.shrinkTo block.valueStackBase).valueStack
      elseParamStack := s.elseParamStack.drop nparams
      controlStack := { block with kind := .else, polymorphicBase := false } :: outer }

def readElse (s : OpIter) : Option OpIter := do
  let block ← s.back
  if block.kind ≠ .then then none
  else do
    let s ← s.checkStackAtEndOfBlock env
    s.switchToElse

def dropElseParams (nparams : ℕ) (s : OpIter) : OpIter :=
  { s with elseParamStack := s.elseParamStack.drop nparams }

def readEnd (s : OpIter) : Option OpIter := do
  let s ← s.checkStackAtEndOfBlock env
  let block ← s.back
  if block.kind = .then then
    if block.type.params ≠ block.type.results then none
    else some (s.dropElseParams block.type.params.length)
  else some s

def popEnd (s : OpIter) : OpIter :=
  { s with controlStack := s.controlStack.tail }

/-! ## Branches -/

def checkBranchValue (relativeDepth : ℕ) (s : OpIter) : Option OpIter := do
  let block ← s.getControl relativeDepth
  s.popThenPushType env block.branchTargetType

def readBr (relativeDepth : ℕ) (s : OpIter) : Option OpIter := do
  let s ← s.checkBranchValue env relativeDepth
  some s.afterUnconditionalBranch

def readBrIf (relativeDepth : ℕ) (s : OpIter) : Option OpIter := do
  let s ← s.popWithType env .i32
  s.checkBranchValue env relativeDepth

def checkBrTableEntry (relativeDepth : ℕ) (prevType : Option (List ValType)) (s : OpIter) :
    Option (List ValType × OpIter) := do
  let block ← s.getControl relativeDepth
  let type := block.branchTargetType
  if prevType.any (fun prevType => decide (prevType.length ≠ type.length)) = true then none
  else do
    let s ← s.popThenPushType env type
    some (type, s)

/-- The loop over the entries of the table, the default one included. -/
def checkBrTable : List ℕ → Option (List ValType) → OpIter → Option OpIter
  | [], _, s => some s
  | depth :: depths, prevType, s => do
    let (type, s) ← s.checkBrTableEntry env depth prevType
    s.checkBrTable depths (some type)

def readBrTable (depths : List ℕ) (defaultDepth : ℕ) (s : OpIter) : Option OpIter :=
  if depths.length > MaxBrTableElems then none
  else do
    let s ← s.popWithType env .i32
    let s ← s.checkBrTable env (depths ++ [defaultDepth]) none
    some s.afterUnconditionalBranch

def readReturn (s : OpIter) : Option OpIter := do
  let body ← s.controlStack.getLast?
  let s ← s.popTypes env body.type.results
  some s.afterUnconditionalBranch

/-! ## Other operations -/

def readDrop (s : OpIter) : Option OpIter := do
  let (_, s) ← s.popStackType
  some s

def selectType (falseType trueType : StackType) : Option StackType :=
  if falseType.isValidForUntypedSelect = true ∧ trueType.isValidForUntypedSelect = true then
    if falseType = .tvar then some trueType
    else if trueType = .tvar ∨ falseType = trueType then some falseType
    else none
  else none

def readSelectOperands (s : OpIter) : Option OpIter := do
  let (falseType, s) ← s.popStackType
  let (trueType, s) ← s.popStackType
  let type ← selectType falseType trueType
  some { s with valueStack := type :: s.valueStack }

def readSelect (s : OpIter) : Option OpIter := do
  let s ← s.popWithType env .i32
  s.readSelectOperands

def readSelectTyped (length : ℕ) (result : ValType) (s : OpIter) : Option OpIter :=
  if env.refTypesEnabled = true ∧ length = 1 ∧ env.readValType result = true then do
    let s ← s.popTypes env [result, result, .i32]
    some (s.push result)
  else none

variable (locals : List ValType)

def readGetLocal (id : ℕ) (s : OpIter) : Option OpIter := do
  let t ← locals[id]?
  some (s.push t)

def readSetLocal (id : ℕ) (s : OpIter) : Option OpIter := do
  let t ← locals[id]?
  s.popWithType env t

def readTeeLocal (id : ℕ) (s : OpIter) : Option OpIter := do
  let t ← locals[id]?
  s.popThenPushType env [t]

def readCall (funcIndex : ℕ) (s : OpIter) : Option OpIter := do
  let funcType ← env.funcTypes[funcIndex]?
  let s ← s.popTypes env funcType.args
  some (s.pushTypes funcType.results)

/-- `readI32Const`, `readI64Const`, `readF32Const` and `readF64Const`. -/
def readConst (t : NumType) (s : OpIter) : Option OpIter := some (s.push (.num t))

def readConversion (operandType resultType : NumType) (s : OpIter) : Option OpIter := do
  let s ← s.popWithType env (.num operandType)
  some (s.push (.num resultType))

def readUnary (operandType : NumType) (s : OpIter) : Option OpIter :=
  s.readConversion env operandType operandType

def readBinary (operandType : NumType) (s : OpIter) : Option OpIter := do
  let s ← s.popTypes env [.num operandType, .num operandType]
  some (s.push (.num operandType))

def readComparison (operandType : NumType) (s : OpIter) : Option OpIter := do
  let s ← s.popTypes env [.num operandType, .num operandType]
  some (s.push .i32)

def readRefNull (type : ValType) (s : OpIter) : Option OpIter :=
  if env.readRefType type = true then some (s.push type) else none

def readRefIsNull (s : OpIter) : Option OpIter := do
  let s ← s.popWithRefType
  some (s.push .i32)

def readStructNew (typeIndex : ℕ) (s : OpIter) : Option OpIter := do
  let fields ← env.structFields typeIndex
  let s ← s.popTypes env (fields.map StructField.type)
  some (s.push (.ref typeIndex))

def readStructGet (typeIndex fieldIndex : ℕ) (s : OpIter) : Option OpIter := do
  let fields ← env.structFields typeIndex
  let field ← fields[fieldIndex]?
  let s ← s.popWithType env (.ref typeIndex)
  some (s.push field.type)

def readStructSet (typeIndex fieldIndex : ℕ) (s : OpIter) : Option OpIter := do
  let fields ← env.structFields typeIndex
  let field ← fields[fieldIndex]?
  let s ← s.popWithType env field.type
  if field.isMutable = true then s.popWithType env (.ref typeIndex) else none

/-- Which narrowings `struct.narrow` allows. -/
def canNarrow (inputType outputType : ValType) : Bool :=
  if env.isStructType inputType = true then
    env.isStructType outputType && env.isStructPrefixOf inputType outputType
  else if outputType = .anyRef then decide (inputType = .anyRef)
  else true

def readStructNarrow (inputType outputType : ValType) (s : OpIter) : Option OpIter :=
  if env.readValType inputType = true ∧ inputType.isReference = true ∧
      env.readValType outputType = true ∧ outputType.isReference = true ∧
      canNarrow env inputType outputType = true then do
    let s ← s.popWithType env inputType
    some (s.push outputType)
  else none

/-! ## The loop of `DecodeFunctionBodyExprs` -/

def step (s : OpIter) : Op → Option OpIter
  | .block t => s.readBlock env t
  | .loop t => s.readLoop env t
  | .if t => s.readIf env t
  | .else => s.readElse env
  | .end => (s.readEnd env).map popEnd
  | .br relativeDepth => s.readBr env relativeDepth
  | .brIf relativeDepth => s.readBrIf env relativeDepth
  | .brTable depths defaultDepth => s.readBrTable env depths defaultDepth
  | .return => s.readReturn env
  | .unreachable => some s.afterUnconditionalBranch
  | .drop => s.readDrop
  | .select => s.readSelect env
  | .selectTyped length result => s.readSelectTyped env length result
  | .getLocal id => s.readGetLocal locals id
  | .setLocal id => s.readSetLocal env locals id
  | .teeLocal id => s.readTeeLocal env locals id
  | .call funcIndex => s.readCall env funcIndex
  | .const t => s.readConst t
  | .unary t => s.readUnary env t
  | .binary t => s.readBinary env t
  | .comparison t => s.readComparison env t
  | .conversion t t' => s.readConversion env t t'
  | .refNull t => s.readRefNull env t
  | .refIsNull => s.readRefIsNull
  | .structNew typeIndex => s.readStructNew env typeIndex
  | .structGet typeIndex fieldIndex => s.readStructGet env typeIndex fieldIndex
  | .structSet typeIndex fieldIndex => s.readStructSet env typeIndex fieldIndex
  | .structNarrow inputType outputType => s.readStructNarrow env inputType outputType

/-- The state after the operations; none comes after the end of the function. -/
def run : List Op → OpIter → Option OpIter
  | [], s => some s
  | op :: ops, s =>
    if s.controlStack = [] then none else (s.step env locals op).bind (run ops)

/-- Is the body accepted?  It ends with the end of the function. -/
def Accepts (results : List ValType) (body : List Op) : Prop :=
  ∃ s, run env locals body (start results) = some s ∧ s.controlStack = []

end OpIter

end SpiderMonkey.Wasm
