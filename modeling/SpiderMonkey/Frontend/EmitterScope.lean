import SpiderMonkey.Lib.EventRun

/-!
# Scopes of the emitter

An emitter scope has a cache of names.  The names that the scope binds are in it from the start, and a name that is
looked up from the scope is added with its location as seen from there.
-/

namespace SpiderMonkey.Frontend.NameLookup

def ENVCOORD_HOPS_LIMIT : ℕ := 2 ^ 8

inductive BindingKind
  | import_ | formalParameter | var | let_ | const | namedLambdaCallee

inductive BindingLocation
  | global
  | argument (slot : ℕ)
  | frame (slot : ℕ)
  | environment (slot : ℕ)
  | import_
  | namedLambdaCallee

/-- `BindingLocation::slot`, with the value that the locations without a slot have. -/
def BindingLocation.slot : BindingLocation → ℕ
  | argument slot | frame slot | environment slot => slot
  | _ => 2 ^ 32 - 1

inductive NameLocation
  | dynamic
  | global (bindingKind : BindingKind)
  | intrinsic
  | namedLambdaCallee
  | argumentSlot (slot : ℕ)
  | frameSlot (bindingKind : BindingKind) (slot : ℕ)
  | environmentCoordinate (bindingKind : BindingKind) (hops : UInt8) (slot : ℕ)
  | import_
  | dynamicAnnexBVar

namespace NameLocation

def fromBinding (bindKind : BindingKind) : BindingLocation → NameLocation
  | .global => global bindKind
  | .argument slot => argumentSlot slot
  | .frame slot => frameSlot bindKind slot
  | .environment slot => environmentCoordinate bindKind 0 slot
  | .import_ => import_
  | .namedLambdaCallee => namedLambdaCallee

/-- `addHops` where the location is an `EnvironmentCoordinate`: it is called for no other. -/
def addHops (more : UInt8) : NameLocation → NameLocation
  | environmentCoordinate bindingKind hops slot => environmentCoordinate bindingKind (hops + more) slot
  | loc => loc

/-- The hops of a coordinate. -/
def hops : NameLocation → Option ℕ
  | environmentCoordinate _ hops _ => some hops.toNat
  | _ => none

@[simp] lemma addHops_zero (loc : NameLocation) : loc.addHops 0 = loc := by cases loc <;> simp [addHops]

@[simp] lemma addHops_comp (a b : UInt8) : addHops b ∘ addHops a = addHops (a + b) := by
  funext loc
  cases loc <;> simp [addHops, UInt8.add_assoc]

lemma hops_addHops {loc : NameLocation} {n : ℕ} (h : ∀ hops ∈ loc.hops, hops + n < ENVCOORD_HOPS_LIMIT) :
    (loc.addHops (.ofNat n)).hops = loc.hops.map (· + n) := by
  cases loc with
  | environmentCoordinate kind hops slot =>
    have hlt : hops.toNat + n < 2 ^ 8 := h hops.toNat rfl
    simp only [addHops, NameLocation.hops, Option.map_some, UInt8.toNat_add, UInt8.toNat_ofNat']
    rw [Nat.mod_eq_of_lt (by omega : n < 2 ^ 8), Nat.mod_eq_of_lt hlt]
  | _ => rfl

end NameLocation

/-! ## The scopes that are compiled -/

inductive ScopeKind
  | function | functionBodyVar | lexical | simpleCatch | catch_ | namedLambda | strictNamedLambda | functionLexical
  | classBody | with_ | eval | strictEval | global | nonSyntactic | module | wasmInstance | wasmFunction
  deriving DecidableEq

variable {Name : Type} [DecidableEq Name]

/-- What a `BindingIter` shows of a binding. -/
structure Binding (Name : Type) where
  name : Name
  kind : BindingKind
  location : BindingLocation
  hasArgumentSlot : Bool

/-- A compiled scope, with the flags of its script where it is the scope of a function. -/
structure Scope (Name : Type) where
  kind : ScopeKind
  hasEnvironment : Bool
  funHasExtensibleScope : Bool
  functionAllowsParameterRedeclaration : Bool
  bindings : List (Binding Name)

namespace Scope

def hasSyntacticEnvironment (scope : Scope Name) : Bool := scope.hasEnvironment && scope.kind ≠ .nonSyntactic

/-- The number of environments of a scope and those that enclose it. -/
def environmentChainLength (scopes : List (Scope Name)) : ℕ := scopes.countP (·.hasSyntacticEnvironment)

/-- The first binding of a name, where positional parameters may be declared again: then the last location counts. -/
def binding (scope : Scope Name) (name : Name) : Option (BindingKind × BindingLocation) :=
  match scope.bindings.dropWhile (·.name ≠ name) with
  | [] => none
  | bi :: rest =>
    if scope.kind = .function ∧ bi.hasArgumentSlot ∧ scope.functionAllowsParameterRedeclaration then
      let again := ((bi :: rest).takeWhile (·.hasArgumentSlot)).filter (·.name = name)
      some (bi.kind, (again.getLast?.getD bi).location)
    else some (bi.kind, bi.location)

end Scope

/-- `none` is a crash.  The list is the scope with those that enclose it. -/
def searchInEnclosingScope (name : Name) : List (Scope Name) → UInt8 → Option NameLocation
  | [], _ => none
  | scope :: enclosing, hops =>
    let hasEnv := scope.hasSyntacticEnvironment
    let next := searchInEnclosingScope name enclosing (if hasEnv then hops + 1 else hops)
    match scope.kind with
    | .function =>
      if !hasEnv then next
      else if scope.funHasExtensibleScope then some .dynamic
      else match scope.binding name with
        | some (kind, bindLoc) => some (.environmentCoordinate kind hops bindLoc.slot)
        | none => next
    | .functionBodyVar | .lexical | .namedLambda | .strictNamedLambda | .simpleCatch | .catch_ | .functionLexical
    | .classBody =>
      if !hasEnv then next
      else match scope.binding name with
        | some (kind, bindLoc) => some (.environmentCoordinate kind hops bindLoc.slot)
        | none => next
    | .module =>
      if !hasEnv then next
      else match scope.binding name with
        | some (_, .import_) => some .import_
        | some (kind, bindLoc) => some (.environmentCoordinate kind hops bindLoc.slot)
        | none => next
    | .eval | .strictEval =>
      if hasEnv then some .dynamic
      else enclosing.head?.map fun outer =>
        if outer.kind = .global ∨ outer.kind = .nonSyntactic then .global .var else .dynamic
    | .global => some (.global .var)
    | .with_ | .nonSyntactic => some .dynamic
    | .wasmInstance | .wasmFunction => none

/-! ## The scopes of a compilation -/

structure EmitterScope (Name : Type) where
  nameCache : Name → Option NameLocation
  fallbackFreeNameLocation : Option NameLocation
  hasEnvironment : Bool
  environmentChainLength : UInt8

/-- The cache of a scope that binds the names.  Only parameters occur twice, and the last one counts. -/
def boundNames (bindings : List (Name × BindingKind × BindingLocation)) : Name → Option NameLocation :=
  bindings.foldl (fun cache bi => Function.update cache bi.1 (some (.fromBinding bi.2.1 bi.2.2))) fun _ => none

/-- The scopes of each `BytecodeEmitter` from the innermost scope on, the innermost emitter first. -/
abbrev Emitters (Name : Type) := List (List (EmitterScope Name))

/-- The innermost scope of an emitter and those that `enclosing` goes on with: it ends at a parent without scopes. -/
def scopesFrom {α : Type*} : List (List α) → List α
  | [] => []
  | [] :: _ => []
  | (scope :: scopes) :: parents => scope :: scopes ++ scopesFrom parents

/-- What the emitters of a compilation share: `enclosingScope` with the compiled scopes around it, and `.generator`. -/
structure CompilationInfo (Name : Type) where
  enclosingScope : List (Scope Name)
  dotGenerator : Name

variable (info : CompilationInfo Name)

def checkEnvironmentChainLength (enclosing : List (EmitterScope Name)) : Option UInt8 :=
  let hops := match enclosing with
    | emitterScope :: _ => emitterScope.environmentChainLength.toNat
    | [] => Scope.environmentChainLength info.enclosingScope
  if hops ≥ ENVCOORD_HOPS_LIMIT - 1 then none else some (.ofNat (hops + 1))

section Lookup

variable (info : CompilationInfo Name) (name : Name)

def nameCanBeFree : Bool := name ≠ info.dotGenerator

variable (scope : EmitterScope Name)

def EmitterScope.lookupInCache : Option NameLocation :=
  match scope.nameCache name with
  | some loc => some loc
  | none => if nameCanBeFree info name then scope.fallbackFreeNameLocation else none

/-- The search in the enclosing scopes of the compilation, and then in the compiled ones. -/
def search : List (EmitterScope Name) → UInt8 → Option NameLocation
  | [], hops => searchInEnclosingScope name info.enclosingScope hops
  | es :: enclosing, hops =>
    match es.lookupInCache info name with
    | some loc => some (loc.addHops hops)
    | none => search enclosing (if es.hasEnvironment then hops + 1 else hops)

/-- Without memory the name is not cached. -/
def EmitterScope.putNameInCache (loc : NameLocation) (hasMemory : Bool) : EmitterScope Name :=
  if hasMemory then { scope with nameCache := Function.update scope.nameCache name (some loc) } else scope

def EmitterScope.searchAndCache (enclosing : List (EmitterScope Name)) (hasMemory : Bool) :
    Option (NameLocation × EmitterScope Name) := do
  let loc ← search info name enclosing (if scope.hasEnvironment then 1 else 0)
  some (loc, scope.putNameInCache name loc hasMemory)

/-- The lookup from the innermost scope. -/
def lookup (hasMemory : Bool) : Emitters Name → Option (NameLocation × Emitters Name)
  | (scope :: scopes) :: parents =>
    match scope.lookupInCache info name with
    | some loc => some (loc, (scope :: scopes) :: parents)
    | none =>
      (scope.searchAndCache info name (scopes ++ scopesFrom parents) hasMemory).map
        fun (loc, scope) => (loc, (scope :: scopes) :: parents)
  | _ => none

end Lookup

/-! ## Runs -/

/-- What a scope is entered with.  The scopes of globals and evals are the outermost ones, and are not checked. -/
structure EnteredScope (Name : Type) where
  bindings : List (Name × BindingKind × BindingLocation)
  fallbackFreeNameLocation : Option NameLocation
  hasEnvironment : Bool
  checked : Bool

inductive ScopeEvent (Name : Type)
  | openEmitter
  | closeEmitter
  | enter (scope : EnteredScope Name)
  | leave
  | lookup (name : Name) (hasMemory : Bool)

/-- The length that a scope gets where it is entered. -/
def EnteredScope.chainLength (scope : EnteredScope Name) (enclosing : List (EmitterScope Name)) : Option UInt8 :=
  if scope.checked then checkEnvironmentChainLength info enclosing
  else if enclosing.isEmpty then some 0 else none

/-- `none` is a crash, or an error that ends the compilation. -/
def ScopeEvent.step : ScopeEvent Name → Emitters Name → Option (Emitters Name)
  | openEmitter, emitters => some ([] :: emitters)
  | closeEmitter, _ :: parents => some parents
  | enter scope, scopes :: parents => do
    let length ← scope.chainLength info (scopes ++ scopesFrom parents)
    let entered : EmitterScope Name :=
      ⟨boundNames scope.bindings, scope.fallbackFreeNameLocation, scope.hasEnvironment, length⟩
    some ((entered :: scopes) :: parents)
  | leave, (_ :: scopes) :: parents => some (scopes :: parents)
  | lookup name hasMemory, emitters => (NameLookup.lookup info name hasMemory emitters).map Prod.snd
  | _, _ => none

end SpiderMonkey.Frontend.NameLookup
