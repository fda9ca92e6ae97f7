import SpiderMonkey.Jit.BranchDeadlines

/-!
# Assembler buffers with constant pools

`AssemblerBufferWithConstantPools`: where instructions, pools and veneers are placed.  The bytes themselves are left
out, and no allocation fails.
-/

namespace SpiderMonkey.AssemblerBuffer

/-- `MOZ_ASSERT`, or a recursion that is not at its end. -/
inductive Stop
  | assertion
  | outOfFuel
  deriving DecidableEq

/-- The arguments of the template and of the constructor; sizes of guards and headers are in instructions. -/
structure Config where
  instSize : ℕ
  guardSize : ℕ
  headerSize : ℕ
  poolMaxOffset : ℕ
  pcBias : ℕ
  nopFill : ℕ
  /-- `SIZE_MAX` -/
  sizeMax : ℕ

def ShortRangeBranchHysteresis : ℕ := 128

/-- The size of `PoolAllocUnit`. -/
def poolAllocUnitSize : ℕ := 4

/-! ## The pool -/

/-- `limiting` is the offset of the limiting user, once there is one, with the index of its entry. -/
structure Pool where
  numEntries : ℕ
  limiting : Option (ℕ × ℕ)
  deriving DecidableEq

namespace Pool

def initial : Pool := ⟨0, none⟩

def getPoolSize (pool : Pool) : ℕ := pool.numEntries * poolAllocUnitSize

def updateLimiter (nextInst : ℕ) (pool : Pool) : Pool :=
  let newRange : ℤ := pool.getPoolSize - nextInst
  match pool.limiting with
  | none => { pool with limiting := some (nextInst, pool.numEntries) }
  | some (user, usee) =>
    let oldRange : ℤ := usee * poolAllocUnitSize - user
    if oldRange < newRange then { pool with limiting := some (nextInst, pool.numEntries) } else pool

/-- The difference wraps around. -/
def checkFull (cfg : Config) (poolOffset : ℕ) (pool : Pool) : Bool :=
  match pool.limiting with
  | none => false
  | some (user, usee) =>
    let offset := (poolOffset + usee * poolAllocUnitSize + (cfg.sizeMax + 1 - (user + cfg.pcBias) % (cfg.sizeMax + 1))) %
      (cfg.sizeMax + 1)
    cfg.poolMaxOffset ≤ offset

end Pool

end AssemblerBuffer

/-! ## The buffer -/

open AssemblerBuffer

/-- `nextOffset` is the size without the pending pool. -/
structure AssemblerBuffer (numRanges : ℕ) where
  nextOffset : ℕ
  pool : Pool
  poolEntryCount : ℕ
  branchDeadlines : BranchDeadlineSet numRanges
  canNotPlacePool : Bool
  canNotPlacePoolStartOffset : ℕ
  canNotPlacePoolMaxInst : ℕ
  inhibitNops : Bool

namespace AssemblerBuffer

variable {numRanges : ℕ}

def initial : AssemblerBuffer numRanges := ⟨0, Pool.initial, 0, BranchDeadlineSet.initial, false, 0, 0, false⟩

def putBytes (numBytes : ℕ) (s : AssemblerBuffer numRanges) : AssemblerBuffer numRanges :=
  { s with nextOffset := s.nextOffset + numBytes }

/-- The room that is kept for veneers of the ranges other than the largest. -/
def secondaryVeneers (cfg : Config) (set : BranchDeadlineSet numRanges) : ℕ :=
  cfg.guardSize * (set.size - set.maxRangeSize)

def hasSpaceForInsts (cfg : Config) (numInsts numPoolEntries : ℕ) (s : AssemblerBuffer numRanges) : Bool :=
  let poolOffset := s.nextOffset + (numInsts + cfg.guardSize + cfg.headerSize) * cfg.instSize
  if s.pool.checkFull cfg poolOffset then false
  else match s.branchDeadlines.earliest with
    | none => true
    | some (deadline, _) =>
      let poolEnd := poolOffset + s.pool.getPoolSize + numPoolEntries * poolAllocUnitSize
      decide (poolEnd + secondaryVeneers cfg s.branchDeadlines ≤ deadline)

/-! ### Finishing a pool -/

/-- A deadline is within some bytes of a position, or these are too many. -/
def expires (cfg : Config) (reservedBytes position deadline : ℕ) : Prop :=
  cfg.sizeMax < position + reservedBytes ∨ deadline < position + reservedBytes

instance (cfg : Config) (reservedBytes position deadline : ℕ) : Decidable (expires cfg reservedBytes position deadline) :=
  inferInstanceAs (Decidable (_ ∨ _))

def hasExpirableShortRangeBranches (cfg : Config) (reservedBytes position : ℕ) (set : BranchDeadlineSet numRanges) : Bool :=
  match set.earliest with
  | none => false
  | some (deadline, _) => expires cfg reservedBytes position deadline

def isPoolEmptyFor (cfg : Config) (bytes : ℕ) (s : AssemblerBuffer numRanges) : Bool :=
  s.pool.numEntries = 0 && !hasExpirableShortRangeBranches cfg bytes s.nextOffset s.branchDeadlines

/-- The loop that puts a veneer for each branch that is about to expire.  The assemblers' callbacks register no new
deadlines. -/
def veneers (cfg : Config) (reservedBytes : ℕ) :
    ℕ → ℕ → BranchDeadlineSet numRanges → Except Stop (ℕ × BranchDeadlineSet numRanges)
  | 0, _, _ => .error .outOfFuel
  | fuel + 1, position, set =>
    match set.earliest with
    | none => .ok (position, set)
    | some (deadline, rangeIdx) =>
      if expires cfg reservedBytes position deadline then
        veneers cfg reservedBytes fuel (position + cfg.guardSize * cfg.instSize) (set.removeDeadline rangeIdx deadline)
      else .ok (position, set)

/-- Where the veneers of a pool begin. -/
def afterPool (cfg : Config) (s : AssemblerBuffer numRanges) : ℕ :=
  s.nextOffset + cfg.guardSize * cfg.instSize + cfg.headerSize * cfg.instSize + s.pool.getPoolSize

def finishPool (cfg : Config) (reservedBytes : ℕ) (s : AssemblerBuffer numRanges) :
    Except Stop (AssemblerBuffer numRanges) :=
  let reservedBytes := max reservedBytes ShortRangeBranchHysteresis
  if isPoolEmptyFor cfg reservedBytes s then .ok s
  else if s.canNotPlacePool then .error .assertion
  else do
    let (position, set) ← veneers cfg reservedBytes (s.branchDeadlines.size + 1) (s.afterPool cfg) s.branchDeadlines
    return { s with nextOffset := position, branchDeadlines := set, pool := Pool.initial }

def flushPool (cfg : Config) (s : AssemblerBuffer numRanges) : Except Stop (AssemblerBuffer numRanges) :=
  finishPool cfg cfg.sizeMax s

/-! ### Instructions -/

def updateLimiter (numPoolEntries : ℕ) (s : AssemblerBuffer numRanges) : AssemblerBuffer numRanges :=
  if numPoolEntries = 0 then s else { s with pool := s.pool.updateLimiter s.nextOffset }

def insertEntry (numPoolEntries : ℕ) (s : AssemblerBuffer numRanges) : AssemblerBuffer numRanges :=
  { s with pool := { s.pool with numEntries := s.pool.numEntries + numPoolEntries } }

def insertEntryForwards (cfg : Config) (numInst numPoolEntries : ℕ) :
    ℕ → AssemblerBuffer numRanges → Except Stop (AssemblerBuffer numRanges)
  | 0, _ => .error .outOfFuel
  | fuel + 1, s =>
    let s := s.updateLimiter numPoolEntries
    if s.hasSpaceForInsts cfg numInst numPoolEntries then .ok (s.insertEntry numPoolEntries)
    else do
      let s ← s.finishPool cfg (numInst * cfg.instSize)
      insertEntryForwards cfg numInst numPoolEntries fuel s

/-- What `allocEntry` does after the fill. -/
def allocFilledEntry (cfg : Config) (fuel numInst numPoolEntries : ℕ) (s : AssemblerBuffer numRanges) :
    Except Stop (AssemblerBuffer numRanges) := do
  let s ← insertEntryForwards cfg numInst numPoolEntries fuel s
  return putBytes (numInst * cfg.instSize) { s with poolEntryCount := s.poolEntryCount + numPoolEntries }

def repeatTimes (f : AssemblerBuffer numRanges → Except Stop (AssemblerBuffer numRanges)) :
    ℕ → AssemblerBuffer numRanges → Except Stop (AssemblerBuffer numRanges)
  | 0, s => .ok s
  | n + 1, s => do repeatTimes f n (← f s)

/-- With fill in the buffer every instruction takes the way through `allocEntry`, which inserts no fill for it. -/
def insertNopFill (cfg : Config) (fuel : ℕ) (s : AssemblerBuffer numRanges) : Except Stop (AssemblerBuffer numRanges) :=
  if 0 < cfg.nopFill ∧ s.inhibitNops = false ∧ s.canNotPlacePool = false then do
    let s ← repeatTimes (allocFilledEntry cfg fuel 1 0) cfg.nopFill { s with inhibitNops := true }
    return { s with inhibitNops := false }
  else .ok s

def allocEntry (cfg : Config) (fuel numInst numPoolEntries : ℕ) (s : AssemblerBuffer numRanges) :
    Except Stop (AssemblerBuffer numRanges) :=
  if numPoolEntries ≠ 0 ∧ s.canNotPlacePool = true then .error .assertion
  else do allocFilledEntry cfg fuel numInst numPoolEntries (← insertNopFill cfg fuel s)

def putInt (cfg : Config) (fuel : ℕ) (s : AssemblerBuffer numRanges) : Except Stop (AssemblerBuffer numRanges) :=
  if cfg.nopFill ≠ 0 ∨ s.hasSpaceForInsts cfg 1 0 = false then allocEntry cfg fuel 1 0 s
  else .ok (s.putBytes cfg.instSize)

def nextInstrOffset (cfg : Config) (s : AssemblerBuffer numRanges) : Except Stop (AssemblerBuffer numRanges) :=
  if s.hasSpaceForInsts cfg 1 0 then .ok s else finishPool cfg ShortRangeBranchHysteresis s

/-! ### Branches -/

/-- A deadline is asserted not to be registered already. -/
def registerBranchDeadline (rangeIdx : Fin numRanges) (deadline : ℕ) (s : AssemblerBuffer numRanges) :
    Except Stop (AssemblerBuffer numRanges) :=
  match s.branchDeadlines.addDeadline rangeIdx deadline with
  | some set => .ok { s with branchDeadlines := set }
  | none => .error .assertion

def unregisterBranchDeadline (rangeIdx : Fin numRanges) (deadline : ℕ) (s : AssemblerBuffer numRanges) :
    AssemblerBuffer numRanges :=
  { s with branchDeadlines := s.branchDeadlines.removeDeadline rangeIdx deadline }

/-! ### Regions without pools -/

/-- The pool is finished if it would spill. -/
def makeSpaceForInsts (cfg : Config) (maxInst : ℕ) (s : AssemblerBuffer numRanges) :
    Except Stop (AssemblerBuffer numRanges) :=
  if s.hasSpaceForInsts cfg maxInst 0 then .ok s
  else do
    let s ← finishPool cfg (maxInst * cfg.instSize) s
    if s.hasSpaceForInsts cfg maxInst 0 then .ok s else .error .assertion

def enterNoPool (cfg : Config) (fuel maxInst : ℕ) (s : AssemblerBuffer numRanges) :
    Except Stop (AssemblerBuffer numRanges) :=
  if s.canNotPlacePool then .error .assertion
  else do
    let s ← insertNopFill cfg fuel s
    let s ← makeSpaceForInsts cfg maxInst s
    return { s with
      canNotPlacePoolStartOffset := s.nextOffset
      canNotPlacePoolMaxInst := maxInst
      canNotPlacePool := true }

def leaveNoPool (cfg : Config) (s : AssemblerBuffer numRanges) : Except Stop (AssemblerBuffer numRanges) :=
  if s.canNotPlacePool ∧ s.nextOffset - s.canNotPlacePoolStartOffset ≤ s.canNotPlacePoolMaxInst * cfg.instSize then
    .ok { s with canNotPlacePool := false }
  else .error .assertion

def enterNoNops (s : AssemblerBuffer numRanges) : Except Stop (AssemblerBuffer numRanges) :=
  if s.inhibitNops then .error .assertion else .ok { s with inhibitNops := true }

def leaveNoNops (s : AssemblerBuffer numRanges) : Except Stop (AssemblerBuffer numRanges) :=
  if s.inhibitNops then .ok { s with inhibitNops := false } else .error .assertion

/-! ### Alignment -/

/-- The pool is dumped if the alignment would. -/
def makeSpaceForFill (cfg : Config) (requiredFill : ℕ) (s : AssemblerBuffer numRanges) :
    Except Stop (AssemblerBuffer numRanges) :=
  if s.hasSpaceForInsts cfg (requiredFill / cfg.instSize + 1) 0 then .ok s else finishPool cfg requiredFill s

def fill (cfg : Config) (alignment : ℕ) : ℕ → AssemblerBuffer numRanges → Except Stop (AssemblerBuffer numRanges)
  | 0, _ => .error .outOfFuel
  | fuel + 1, s => if s.nextOffset % alignment = 0 then .ok s else do fill cfg alignment fuel (← putInt cfg fuel s)

def align (cfg : Config) (fuel alignment : ℕ) (s : AssemblerBuffer numRanges) :
    Except Stop (AssemblerBuffer numRanges) :=
  if alignment < cfg.instSize then .error .assertion
  else do
    let s ← insertNopFill cfg fuel s
    if s.nextOffset % alignment = 0 then return s
    else do
      let s ← makeSpaceForFill cfg (alignment - s.nextOffset % alignment) s
      let filled ← fill cfg alignment fuel { s with inhibitNops := true }
      return { filled with inhibitNops := s.inhibitNops }

def appendRawCode (numBytes : ℕ) (s : AssemblerBuffer numRanges) : Except Stop (AssemblerBuffer numRanges) :=
  if s.pool.numEntries = 0 then .ok (s.putBytes numBytes) else .error .assertion

/-! ### Runs -/

inductive Event (numRanges : ℕ)
  | allocEntry (numInst numPoolEntries : ℕ)
  | putInt
  | nextInstrOffset
  | flushPool
  | registerBranchDeadline (rangeIdx : Fin numRanges) (deadline : ℕ)
  | unregisterBranchDeadline (rangeIdx : Fin numRanges) (deadline : ℕ)
  | enterNoPool (maxInst : ℕ)
  | leaveNoPool
  | enterNoNops
  | leaveNoNops
  | align (alignment : ℕ)
  | appendRawCode (numBytes : ℕ)

def step (cfg : Config) (fuel : ℕ) (s : AssemblerBuffer numRanges) : Event numRanges → Except Stop (AssemblerBuffer numRanges)
  | .allocEntry numInst numPoolEntries => s.allocEntry cfg fuel numInst numPoolEntries
  | .putInt => s.putInt cfg fuel
  | .nextInstrOffset => s.nextInstrOffset cfg
  | .flushPool => s.flushPool cfg
  | .registerBranchDeadline rangeIdx deadline => s.registerBranchDeadline rangeIdx deadline
  | .unregisterBranchDeadline rangeIdx deadline => .ok (s.unregisterBranchDeadline rangeIdx deadline)
  | .enterNoPool maxInst => s.enterNoPool cfg fuel maxInst
  | .leaveNoPool => s.leaveNoPool cfg
  | .enterNoNops => s.enterNoNops
  | .leaveNoNops => s.leaveNoNops
  | .align alignment => s.align cfg fuel alignment
  | .appendRawCode numBytes => s.appendRawCode numBytes

/-- The states of a buffer while no allocation fails. -/
inductive Reached (cfg : Config) : AssemblerBuffer numRanges → Prop
  | initial : Reached cfg initial
  | step {s s' : AssemblerBuffer numRanges} (fuel : ℕ) (e : Event numRanges) (hs : Reached cfg s)
      (heq : s.step cfg fuel e = .ok s') : Reached cfg s'

end AssemblerBuffer

end SpiderMonkey
