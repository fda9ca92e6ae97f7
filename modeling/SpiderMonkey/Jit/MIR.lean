import SpiderMonkey.Jit.Range

/-!
# Definitions of Ion's intermediate representation

What range analysis reads of the definitions that are the operands of an instruction: their type,
the range that was found for them, and whether they are constants.
-/

namespace SpiderMonkey

open Binary64

inductive MIRType where
  | Undefined | Null | Boolean | Int32 | Int64 | Double | Float32
  | String | Symbol | BigInt | Simd128
  | Object | MagicOptimizedArguments | MagicOptimizedOut | MagicHole | MagicIsConstructing
  | MagicUninitializedLexical
  | Value | ObjectOrNull | None | Slots | Elements | Pointer | RefOrNull | StackResults | Shape
  | ObjectGroup
  deriving DecidableEq, Repr

def IsTypeRepresentableAsDouble (type : MIRType) : Bool :=
  type == .Int32 || type == .Double || type == .Float32

/-- A constant with a type of numbers. -/
structure MConstant where
  type : MIRType
  numberToDouble : Binary64.Double
  deriving DecidableEq, Repr

structure MDefinition where
  type : MIRType
  /-- The range that the analysis has attached. -/
  range : Option Range
  /-- The constant behind the definition, directly or in a box. -/
  maybeConstantValue : Option MConstant
  isConstant : Bool
  isToNumberInt32 : Bool
  /-- An unsigned shift that may yield values above those of int32. -/
  isUrshWithoutBailouts : Bool
  /-- `IsUint32Type`: an unsigned shift by zero, maybe behind a beta node. -/
  isUint32Type : Bool
  deriving DecidableEq, Repr

namespace MDefinition

/-- The number of a constant that is representable as a double. -/
def constantDouble (d : MDefinition) : Option Binary64.Double :=
  match d.maybeConstantValue with
  | some c => if IsTypeRepresentableAsDouble c.type then some c.numberToDouble else none
  | none => none

/-- A number that the definition can have at run time. -/
structure Yields (d : MDefinition) (v : Binary64.Double) : Prop where
  constant : ∀ c, d.constantDouble = some c → v = c
  int32 : d.type = .Int32 → ∃ k : BitVec 32, v = ofInt k.toInt

end MDefinition

end SpiderMonkey
