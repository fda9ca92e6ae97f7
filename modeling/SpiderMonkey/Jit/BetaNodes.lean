import SpiderMonkey.Jit.MIR
import SpiderMonkey.Jit.RangeBitwise
import SpiderMonkey.Jit.RangeRound

/-!
# Beta nodes of Ion's range analysis

Where a branch depends on a numeric comparison, the block behind it learns something of the
operands.  `addBetaNodes` renames them there and attaches the range of the values for which the
branch is taken, which `setDouble` makes of the constant of the comparison.

The branch for a comparison that fails is that of the negated operator, except that NaN fails all
of them but one.  `Satisfies` is what is left of the comparison after that: a relation of the
values, and whether NaN may be there at all.
-/

namespace SpiderMonkey

open Binary64 Checked

/-! ## Comparisons -/

/-- The comparison operators of the bytecode. -/
inductive CompareOp where
  | Lt | Le | Gt | Ge | Eq | Ne | StrictEq | StrictNe
  deriving DecidableEq, Repr

def ReverseCompareOp : CompareOp → CompareOp
  | .Gt => .Lt
  | .Ge => .Le
  | .Lt => .Gt
  | .Le => .Ge
  | .Eq => .Eq
  | .Ne => .Ne
  | .StrictEq => .StrictEq
  | .StrictNe => .StrictNe

def NegateCompareOp : CompareOp → CompareOp
  | .Gt => .Le
  | .Ge => .Lt
  | .Lt => .Ge
  | .Le => .Gt
  | .Eq => .Ne
  | .Ne => .Eq
  | .StrictNe => .StrictEq
  | .StrictEq => .StrictNe

namespace CompareOp

def relation : CompareOp → ℚ → ℚ → Prop
  | Lt, p, q => p < q
  | Le, p, q => p ≤ q
  | Gt, p, q => q < p
  | Ge, p, q => q ≤ p
  | Eq, p, q => p = q
  | StrictEq, p, q => p = q
  | Ne, p, q => p ≠ q
  | StrictNe, p, q => p ≠ q

instance : (op : CompareOp) → (p q : ℚ) → Decidable (op.relation p q)
  | Lt, p, q => inferInstanceAs (Decidable (p < q))
  | Le, p, q => inferInstanceAs (Decidable (p ≤ q))
  | Gt, p, q => inferInstanceAs (Decidable (q < p))
  | Ge, p, q => inferInstanceAs (Decidable (q ≤ p))
  | Eq, p, q => inferInstanceAs (Decidable (p = q))
  | StrictEq, p, q => inferInstanceAs (Decidable (p = q))
  | Ne, p, q => inferInstanceAs (Decidable (p ≠ q))
  | StrictNe, p, q => inferInstanceAs (Decidable (p ≠ q))

/-- What the operator yields if an operand is NaN. -/
def unordered : CompareOp → Bool
  | Ne => true
  | StrictNe => true
  | _ => false

def isEquality : CompareOp → Bool
  | Eq => true
  | StrictEq => true
  | _ => false

/-- The comparison of two doubles. -/
def compare (op : CompareOp) (x y : Double) : Bool :=
  if IsNaN x ∨ IsNaN y then op.unordered else decide (op.relation (toRat x) (toRat y))

variable {op : CompareOp} {p q : ℚ} {x y : Double} {nan : Bool}

@[simp] lemma relation_negate : (NegateCompareOp op).relation p q ↔ ¬op.relation p q := by
  cases op <;> simp [NegateCompareOp, relation]

@[simp] lemma relation_reverse : (ReverseCompareOp op).relation p q ↔ op.relation q p := by
  cases op <;> simp [ReverseCompareOp, relation, eq_comm]

@[simp] lemma isEquality_negate : (NegateCompareOp op).isEquality = op.unordered := by
  cases op <;> rfl

@[simp] lemma unordered_reverse : (ReverseCompareOp op).unordered = op.unordered := by
  cases op <;> rfl

@[simp] lemma isEquality_reverse : (ReverseCompareOp op).isEquality = op.isEquality := by
  cases op <;> rfl

/-- What is left of a comparison once its outcome is known: the relation of the numbers, and for
NaN that it passes, either because the operator says so or because no comparison holds of it. -/
structure Satisfies (op : CompareOp) (nan : Bool) (x y : Double) : Prop where
  relation : ¬IsNaN x → ¬IsNaN y → op.relation (toRat x) (toRat y)
  unordered : IsNaN x ∨ IsNaN y → op.isEquality = false ∧ (nan = true ∨ op.unordered = true)

lemma Satisfies.reverse (h : op.Satisfies nan x y) : (ReverseCompareOp op).Satisfies nan y x where
  relation hy hx := relation_reverse.mpr (h.relation hx hy)
  unordered hn := by
    simpa using h.unordered hn.symm

lemma satisfies_of_compare (h : op.compare x y = true) : op.Satisfies false x y := by
  unfold compare at h
  split at h
  next hn =>
    refine ⟨fun hx hy => absurd hn (by simp [hx, hy]), fun _ => ⟨?_, .inr h⟩⟩
    cases op <;> simp_all [CompareOp.unordered, isEquality]
  next hn =>
    rw [decide_eq_true_eq] at h
    exact ⟨fun _ _ => h, fun hn' => absurd hn' hn⟩

lemma satisfies_negate (h : op.compare x y = false) : (NegateCompareOp op).Satisfies true x y := by
  unfold compare at h
  split at h
  next hn =>
    refine ⟨fun hx hy => absurd hn (by simp [hx, hy]), fun _ => ⟨?_, .inl rfl⟩⟩
    rwa [isEquality_negate]
  next hn =>
    rw [decide_eq_false_iff_not] at h
    exact ⟨fun _ _ => relation_negate.mpr h, fun hn' => absurd hn' hn⟩

end CompareOp

/-! ## The code of `addBetaNodes` -/

inductive CompareType where
  | Compare_Undefined | Compare_Null | Compare_Boolean
  | Compare_Int32 | Compare_Int32MaybeCoerceBoth | Compare_Int32MaybeCoerceLHS
  | Compare_Int32MaybeCoerceRHS
  | Compare_UInt32 | Compare_Int64 | Compare_UInt64
  | Compare_Double | Compare_DoubleMaybeCoerceLHS | Compare_DoubleMaybeCoerceRHS
  | Compare_Float32
  | Compare_String | Compare_Symbol | Compare_StrictString | Compare_Object | Compare_RefOrNull
  | Compare_Bitwise | Compare_Unknown
  deriving DecidableEq, Repr

structure MCompare where
  left : MDefinition
  right : MDefinition
  jsop : CompareOp
  compareType : CompareType

namespace MCompare

variable (compare : MCompare)

def isInt32Comparison : Bool :=
  compare.compareType == .Compare_Int32 || compare.compareType == .Compare_Int32MaybeCoerceBoth ||
    compare.compareType == .Compare_Int32MaybeCoerceLHS ||
    compare.compareType == .Compare_Int32MaybeCoerceRHS

def isDoubleComparison : Bool :=
  compare.compareType == .Compare_Double ||
    compare.compareType == .Compare_DoubleMaybeCoerceLHS ||
    compare.compareType == .Compare_DoubleMaybeCoerceRHS

def isFloat32Comparison : Bool := compare.compareType == .Compare_Float32

def isNumericComparison : Bool :=
  compare.isInt32Comparison || compare.isDoubleComparison || compare.isFloat32Comparison

end MCompare

inductive BranchDirection where
  | FALSE_BRANCH
  | TRUE_BRANCH
  deriving DecidableEq, Repr

/-- A block that is entered through one of the branches of a test, and the comparison that is
tested there. -/
structure DominatorBranch where
  compare : MCompare
  branch_dir : BranchDirection

/-- The operands of a comparison. -/
inductive Side where
  | left
  | right
  deriving DecidableEq, Repr

/-- A new definition of an operand of the comparison, with the range that is attached to it. -/
structure MBeta where
  operand : Side
  comparison : Range

namespace RangeAnalysis

open Range

/-- The int32 that a double equals, where negative zero equals zero. -/
def NumberEqualsInt32 (d : Double) : Option (BitVec 32) :=
  if IsFinite d ∧ (toRat d).den = 1 ∧ INT32_MIN ≤ (toRat d).num ∧ (toRat d).num ≤ INT32_MAX then
    some (BitVec.ofInt 32 (toRat d).num)
  else none

def SafeAdd (one two : BitVec 32) : Option (BitVec 32) :=
  if (one + two).toInt = one.toInt + two.toInt then some (one + two) else none

def SafeSub (one two : BitVec 32) : Option (BitVec 32) :=
  if (one - two).toInt = one.toInt - two.toInt then some (one - two) else none

/-- `bound == 0`. -/
def equalsZero (d : Double) : Bool := decide (¬IsNaN d ∧ toRat d = 0)

/-- The neighbour of the bound, if the operand and the bound are int32 values. -/
def tighten (type : MIRType) (step : BitVec 32 → BitVec 32 → Option (BitVec 32)) (bound : Double) : Double :=
  if type = .Int32 then
    match NumberEqualsInt32 bound with
    | some intbound =>
      match step intbound 1#32 with
      | some intbound => ofInt intbound.toInt
      | none => bound
    | none => bound
  else bound

def setUnknown : Checked Range :=
  ofInt64 NoInt32LowerBound NoInt32UpperBound true true IncludesInfinityAndNaN

/-- The range of a strict comparison, which excludes negative zero at zero. -/
def excludeNegativeZeroAt (bound : Double) (comp : Range) : Checked (Option Range) :=
  if equalsZero bound then some <$> comp.refineToExcludeNegativeZero else return some comp

/-- The range of an operand of the given type that compares so with the bound. -/
def betaRange (jsop : CompareOp) (type : MIRType)
    (bound conservativeLower conservativeUpper : Double) : Checked (Option Range) :=
  match jsop with
  | .Le => some <$> setDouble conservativeLower bound
  | .Lt => do
    -- For integers, if x < c, the upper bound of x is c-1.
    let bound := tighten type SafeSub bound
    let comp ← setDouble conservativeLower bound
    excludeNegativeZeroAt bound comp
  | .Ge => some <$> setDouble bound conservativeUpper
  | .Gt => do
    -- For integers, if x > c, the lower bound of x is c+1.
    let bound := tighten type SafeAdd bound
    let comp ← setDouble bound conservativeUpper
    excludeNegativeZeroAt bound comp
  | .StrictEq => some <$> setDouble bound bound
  | .Eq => some <$> setDouble bound bound
  | .StrictNe => if equalsZero bound then do
      some <$> (← setUnknown).refineToExcludeNegativeZero
    else return none
  | .Ne => if equalsZero bound then do
      some <$> (← setUnknown).refineToExcludeNegativeZero
    else return none

def attach (operand : Side) (comp : Option Range) : Checked (List MBeta) :=
  match comp with
  | some comp => do return [⟨operand, ← comp.copy⟩]
  | none => return []

/-- The new definitions of the smaller and of the greater one of two int32 operands. -/
def int32BetaNodes (smaller greater : Side) : Checked (List MBeta) := do
  let below ← NewInt32Range int32MinValue (int32MaxValue - 1#32)
  let above ← NewInt32Range (int32MinValue + 1#32) int32MaxValue
  return [⟨smaller, below⟩, ⟨greater, above⟩]

/-- The beta nodes that a block gets for the branch that leads to it. -/
def betaNodes (block : DominatorBranch) : Checked (List MBeta) :=
  let compare := block.compare
  if !compare.isNumericComparison || compare.compareType == .Compare_UInt32 then return []
  else
    let jsop := if block.branch_dir = .FALSE_BRANCH then NegateCompareOp compare.jsop
      else compare.jsop
    let conservativeLower := if block.branch_dir = .FALSE_BRANCH then nan else infinity true
    let conservativeUpper := if block.branch_dir = .FALSE_BRANCH then nan else infinity false
    match compare.left.constantDouble, compare.right.constantDouble with
    | some bound, _ => do
      let comp ← betaRange (ReverseCompareOp jsop) compare.right.type bound conservativeLower
        conservativeUpper
      attach .right comp
    | none, some bound => do
      let comp ← betaRange jsop compare.left.type bound conservativeLower conservativeUpper
      attach .left comp
    | none, none =>
      if compare.left.type = .Int32 ∧ compare.right.type = .Int32 then
        match jsop with
        | .Lt => int32BetaNodes .left .right
        | .Gt => int32BetaNodes .right .left
        | _ => return []
      else return []

/-- The beta nodes of a block, if a comparison decides whether it is entered. -/
def blockBetaNodes : Option DominatorBranch → Checked (List MBeta)
  | some block => betaNodes block
  | none => return []

/-- All the beta nodes, block for block. -/
def addBetaNodes (blocks : List (Option DominatorBranch)) : Checked (List (List MBeta)) :=
  blocks.mapM blockBetaNodes

end RangeAnalysis

end SpiderMonkey
