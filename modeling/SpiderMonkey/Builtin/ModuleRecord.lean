import SpiderMonkey.Lib.Script
import SpiderMonkey.Lib.Tarjan
import SpiderMonkey.Vm.JSString

/-!
# Cyclic module records

The slots of module objects that linking and evaluation use, and the two depth-first searches
`InnerModuleLinking` and `InnerModuleEvaluation`.  The searches differ in the statuses they go through
and in what they run for a module, and are otherwise the same (`innerModule`).

Whatever may throw in a search is a `ModuleStep`: the resolution of a request, a call that exceeds the
recursion limit, the allocation for the stack, and what is run for the module.  A step occurs once in a
search at most.
-/

namespace SpiderMonkey

inductive ModuleStatus where
  | unlinked
  | linking
  | linked
  | evaluating
  | evaluated
  | evaluatedError
  deriving DecidableEq, Repr

/-- The values of the constants `MODULE_STATUS_*`. -/
def ModuleStatus.toNat : ModuleStatus → ℕ
  | .unlinked => 0
  | .linking => 1
  | .linked => 2
  | .evaluating => 3
  | .evaluated => 4
  | .evaluatedError => 5

/-- The requests of the modules, and the modules that they resolve to. -/
structure ModuleGraph (M : Type) where
  requestedModules : M → List JSString
  HostResolveImportedModule : M → JSString → M

/-- The slots of the modules, and the stack of a search.  The modules for which something was run are
recorded: all of them, and those for which it has succeeded. -/
structure ModuleState (M ε : Type) where
  status : M → ModuleStatus
  dfsIndex : M → Option ℕ
  dfsAncestorIndex : M → Option ℕ
  evaluationError : M → Option ε
  stack : List M
  attempts : List M
  ran : List M

/-- What may throw in a search. -/
inductive ModuleStep (M : Type) where
  /-- The call for a request of a module, or for the root. -/
  | call (caller : Option (M × ℕ))
  | append (module : M)
  | resolve (module : M) (i : ℕ)
  | run (module : M)
  deriving DecidableEq

/-- The statuses of a search, and what it does about modules that it does not visit. -/
structure Phase (M ε : Type) where
  pending : ModuleStatus
  busy : ModuleStatus
  complete : ModuleStatus
  minimumStatus : ModuleStatus
  /-- A module that is not to be visited again. -/
  visited : ModuleStatus → Bool
  /-- What is asserted of a required module after the call for it. -/
  passed : ModuleStatus → Bool
  /-- The result for a module that is neither pending nor visited. -/
  refuse : M → Script (ModuleState M ε) ε ℕ
  /-- `JSMSG_BAD_MODULE_STATUS`. -/
  badModuleStatus : ε

section Code

open Script

variable {M ε : Type} [DecidableEq M]

def ModuleSetStatus (module : M) (newStatus : ModuleStatus) : Script (ModuleState M ε) ε Unit := do
  let s ← get
  assert ((s.status module).toNat ≤ ModuleStatus.linked.toNat ∧ newStatus = .unlinked ∨
    (s.status module).toNat < newStatus.toNat)
  modify fun s => { s with status := Function.update s.status module newStatus }

/-- A step that may throw. -/
def step (throws : ModuleStep M → Option ε) (e : ModuleStep M) : Script (ModuleState M ε) ε Unit :=
  match throws e with
  | none => pure ()
  | some error => throw error

def CallModuleResolveHook (g : ModuleGraph M) (throws : ModuleStep M → Option ε)
    (phase : Phase M ε) (module : M) (i : ℕ) (specifier : JSString) :
    Script (ModuleState M ε) ε M := do
  step throws (.resolve module i)
  let requestedModule := g.HostResolveImportedModule module specifier
  let s ← get
  if (s.status requestedModule).toNat < phase.minimumStatus.toNat then throw phase.badModuleStatus
  else return requestedModule

/-- `std_Math_min` on slots that hold numbers. -/
def minIndex (a b : Option ℕ) : Option ℕ := a.bind fun i => b.map (Min.min i)

def lowerAncestorIndex (phase : Phase M ε) (module requiredModule : M) : Script (ModuleState M ε) ε Unit := do
  let s ← get
  if s.status requiredModule = phase.busy then
    modify fun s => { s with
      dfsAncestorIndex := Function.update s.dfsAncestorIndex module
        (minIndex (s.dfsAncestorIndex module) (s.dfsAncestorIndex requiredModule)) }
  else return ()

/-- The requests that are left of a module, the first of which has number `i`. -/
def visitRequests (g : ModuleGraph M) (throws : ModuleStep M → Option ε) (phase : Phase M ε)
    (inner : M → ℕ → Script (ModuleState M ε) ε ℕ) (module : M) :
    ℕ → List JSString → ℕ → Script (ModuleState M ε) ε ℕ
  | _, [], index => return index
  | i, required :: rest, index => do
    let requiredModule ← CallModuleResolveHook g throws phase module i required
    step throws (.call (some (module, i)))
    let index ← inner requiredModule index
    let s ← get
    assert (phase.passed (s.status requiredModule) = true)
    assert (s.status requiredModule = phase.busy ↔ requiredModule ∈ s.stack)
    assert ((s.dfsIndex requiredModule).isSome = true)
    assert ((s.dfsAncestorIndex requiredModule).isSome = true)
    lowerAncestorIndex phase module requiredModule
    visitRequests g throws phase inner module (i + 1) rest index

def popModules (phase : Phase M ε) (module : M) : ℕ → Script (ModuleState M ε) ε Unit
  | 0 => stuck
  | limit + 1 => do
    let s ← get
    match s.stack.getLast? with
    | none => stuck
    | some requiredModule => do
      modify fun s => { s with stack := s.stack.dropLast }
      ModuleSetStatus requiredModule phase.complete
      if requiredModule ≠ module then popModules phase module limit else return ()

def runModule (throws : ModuleStep M → Option ε) (module : M) : Script (ModuleState M ε) ε Unit := do
  modify fun s => { s with attempts := s.attempts ++ [module] }
  step throws (.run module)
  modify fun s => { s with ran := s.ran ++ [module] }

/-- The steps of `InnerModuleLinking` and `InnerModuleEvaluation`. -/
def innerModule (g : ModuleGraph M) (throws : ModuleStep M → Option ε) (phase : Phase M ε) :
    ℕ → M → ℕ → Script (ModuleState M ε) ε ℕ
  | 0, _, _ => stuck
  | fuel + 1, module, index => do
    let s ← get
    if phase.visited (s.status module) = true then return index
    else if s.status module ≠ phase.pending then phase.refuse module
    else do
      ModuleSetStatus module phase.busy
      modify fun s => { s with
        dfsIndex := Function.update s.dfsIndex module (some index)
        dfsAncestorIndex := Function.update s.dfsAncestorIndex module (some index) }
      step throws (.append module)
      modify fun s => { s with stack := s.stack ++ [module] }
      let index ← visitRequests g throws phase (innerModule g throws phase fuel) module 0
        (g.requestedModules module) (index + 1)
      runModule throws module
      let s ← get
      assert (s.stack.count module = 1)
      assert (minIndex (s.dfsAncestorIndex module) (s.dfsIndex module) = s.dfsAncestorIndex module)
      if s.dfsAncestorIndex module = s.dfsIndex module then do
        popModules phase module s.stack.length
        return index
      else return index

end Code

end SpiderMonkey
