import SpiderMonkey.Jit.DivisionConstants

/-!
# The code of a division by a constant

The instruction sequences of `CodeGenerator-x86-shared.cpp` for quotients and remainders with a constant divisor,
on registers of 32 bits.
-/

namespace SpiderMonkey

open Checked

namespace DivisionCode

/-! ## Instructions -/

abbrev Register := BitVec 32

/-- The part of `MDiv` and of `MMod` that the code depends on. -/
structure MBinaryArith where
  isUnsigned : Bool
  isTruncated : Bool
  trapOnError : Bool
  canBeNegativeDividend : Bool

inductive Outcome
  | value (output : Register)
  | bailout
  | wasmTrap
  deriving DecidableEq

/-- The high word of the unsigned product, which is left in `edx`. -/
def umull (eax src : Register) : Register := BitVec.ofNat 32 (eax.toNat * src.toNat / 2 ^ 32)

/-- The high word of the signed product, which is left in `edx`. -/
def imull (eax src : Register) : Register := BitVec.ofInt 32 (eax.toInt * src.toInt / 2 ^ 32)

/-- Shifts, whose immediate operand is asserted to be small. -/
def shrl (imm : ℕ) (dst : Register) : Checked Register := do
  ensure (imm < 32)
  return dst >>> imm

def sarl (imm : ℕ) (dst : Register) : Checked Register := do
  ensure (imm < 32)
  return dst.sshiftRight imm

def UINT32_MAX : ℕ := 2 ^ 32 - 1
def INT32_MAX : ℕ := 2 ^ 31 - 1

/-! ## Unsigned division by other numbers than powers of two -/

/-- The quotient in `edx`. -/
def udivByConstant (d lhs : Register) : Checked Register := do
  ensure (d.toNat &&& (d.toNat - 1) ≠ 0)
  let rmc ← DivisionConstants.computeDivisionConstants d.toNat 32
  let edx := umull (BitVec.ofNat 32 rmc.multiplier) lhs
  if UINT32_MAX < rmc.multiplier then do
    ensure (0 < rmc.shiftAmount)
    ensure (rmc.multiplier < 2 ^ 33)
    let eax ← shrl 1 (lhs - edx)
    shrl (rmc.shiftAmount - 1) (edx + eax)
  else shrl rmc.shiftAmount edx

variable (mir : MBinaryArith)

def visitUDivOrModConstant (isDiv : Bool) (d lhs : Register) : Checked Outcome :=
  if d = 0 then
    if mir.isTruncated = true then
      if mir.trapOnError = true then return .wasmTrap else return .value 0
    else return .bailout
  else do
    let edx ← udivByConstant d lhs
    if isDiv = false then
      let eax := lhs - edx * d
      if mir.isTruncated = false ∧ eax.msb = true then return .bailout else return .value eax
    else if mir.isTruncated = false ∧ edx * d ≠ lhs then return .bailout
    else return .value edx

/-! ## Signed division by other numbers than powers of two -/

/-- The quotient in `edx`. -/
def divByConstant (d lhs : Register) : Checked Register := do
  ensure (d.toInt.natAbs &&& (d.toInt.natAbs - 1) ≠ 0)
  let rmc ← DivisionConstants.computeDivisionConstants d.toInt.natAbs 31
  let edx := imull (BitVec.ofNat 32 rmc.multiplier) lhs
  ensure (INT32_MAX < rmc.multiplier → rmc.multiplier < 2 ^ 32)
  let edx := if INT32_MAX < rmc.multiplier then edx + lhs else edx
  let edx ← sarl rmc.shiftAmount edx
  let eax ← sarl 31 lhs
  let edx := if mir.canBeNegativeDividend = true then edx - eax else edx
  return if d.toInt < 0 then -edx else edx

def visitDivOrModConstantI (isDiv : Bool) (d lhs : Register) : Checked Outcome := do
  let edx ← divByConstant mir d lhs
  if isDiv = true then
    if mir.isTruncated = false ∧ (edx * d ≠ lhs ∨ d.toInt < 0 ∧ lhs = 0) then return .bailout
    else return .value edx
  else
    let eax := edx * -d + lhs
    if mir.isTruncated = false ∧ mir.canBeNegativeDividend = true ∧ lhs.toInt < 0 ∧ eax = 0 then return .bailout
    else return .value eax

/-! ## Division by powers of two -/

variable (shift : ℕ)

/-- A register with the sign of the numerator in its high bits. -/
def signBits (lhs : Register) : Checked Register := if 1 < shift then sarl 31 lhs else return lhs

/-- The numerator, adjusted so that a shift rounds it towards zero. -/
def roundNumerator (lhs : Register) : Checked Register :=
  if mir.canBeNegativeDividend = true ∧ mir.isTruncated = true then do
    let sign ← signBits shift lhs
    let adjustment ← shrl (32 - shift) sign
    return adjustment + lhs
  else return lhs

def visitDivPowTwoI (negativeDivisor : Bool) (lhs : Register) : Checked Outcome :=
  if mir.isTruncated = false ∧ negativeDivisor = true ∧ lhs = 0 then return .bailout
  else if shift ≠ 0 then
    if mir.isTruncated = false ∧ lhs &&& BitVec.ofNat 32 (UINT32_MAX >>> (32 - shift)) ≠ 0 then return .bailout
    else if mir.isUnsigned = true then do
      let lhs ← shrl shift lhs
      return .value lhs
    else do
      let lhs ← roundNumerator mir shift lhs
      let lhs ← sarl shift lhs
      return .value (if negativeDivisor = true then -lhs else lhs)
  else if negativeDivisor = true then
    -- the least integer is the only one whose negation overflows
    if lhs = BitVec.intMin 32 then
      if mir.isTruncated = false then return .bailout
      else if mir.trapOnError = true then return .wasmTrap
      else return .value (-lhs)
    else return .value (-lhs)
  else if mir.isUnsigned = true ∧ mir.isTruncated = false ∧ lhs.msb = true then return .bailout
  else return .value lhs

def lowMask : Register := BitVec.ofNat 32 (1 <<< shift) - 1

def visitModPowTwoI (lhs : Register) : Outcome :=
  if mir.isUnsigned = false ∧ mir.canBeNegativeDividend = true ∧ lhs.msb = true then
    let lhs := -(-lhs &&& lowMask shift)
    if mir.isTruncated = false ∧ lhs = 0 then .bailout else .value lhs
  else .value (lhs &&& lowMask shift)

/-! ## What is to be computed -/

/-- The results of the division of two integers. -/
inductive Untruncated
  | nan
  | infinite
  | negativeZero
  | number (q : ℚ)

/-- The quotient of two numbers of the language that are integers, and not negative zero. -/
def quotient (a b : ℤ) : Untruncated :=
  if b = 0 then if a = 0 then .nan else .infinite
  else if a = 0 ∧ b < 0 then .negativeZero
  else .number (a / b)

/-- The remainder, which has the sign of the dividend. -/
def remainder (a b : ℤ) : Untruncated :=
  if b = 0 then .nan
  else if a < 0 ∧ b ∣ a then .negativeZero
  else .number (a.tmod b)

namespace Untruncated

/-- The result as an int32, if it is one. -/
def int32? : Untruncated → Option ℤ
  | .number q => if q.den = 1 ∧ -2 ^ 31 ≤ q.num ∧ q.num < 2 ^ 31 then some q.num else none
  | _ => none

/-- The result after `ToInt32`. -/
def truncate : Untruncated → Register
  | .number q => BitVec.ofInt 32 (q.num.tdiv q.den)
  | _ => 0

end Untruncated

def operand (isUnsigned : Bool) (r : Register) : ℤ := if isUnsigned = true then r.toNat else r.toInt

/-- The integer truncation of a result, or the result itself if it is an int32. -/
def expected (isDiv : Bool) (a b : ℤ) : Outcome :=
  let result := if isDiv = true then quotient a b else remainder a b
  if mir.isTruncated = true then
    if mir.trapOnError = true ∧ (b = 0 ∨ isDiv = true ∧ a = -2 ^ 31 ∧ b = -1) then .wasmTrap
    else .value result.truncate
  else match result.int32? with
    | some v => .value (BitVec.ofInt 32 v)
    | none => .bailout

end DivisionCode

end SpiderMonkey
