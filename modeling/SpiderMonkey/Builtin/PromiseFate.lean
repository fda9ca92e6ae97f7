import SpiderMonkey.Lib.EventRun

/-!
# The fate of a promise

One promise, with the calls of its resolving functions, of `PromiseObject::resolve` and
`PromiseObject::reject`, of `PerformPromiseThen`, and with the jobs that are queued for it.  Other code can
run between any two of these, in particular while `ResolvePromiseInternal` looks up `then`.  The promises
that this one is resolved with are part of the surroundings: what they do to it arrives as an event.
-/

namespace SpiderMonkey.PromiseObject

open EventRun List

variable {R V : Type}

/-! ## The promise -/

inductive State
  | Pending
  | Fulfilled
  | Rejected
  deriving DecidableEq

inductive ReactionsOrResult (R V : Type)
  | undefined
  | record (reaction : R)
  | list (reactions : List R)
  | result (valueOrReason : V)

/-- A pair of resolving functions: the one that the promise was created with, or the one that
`PromiseResolveThenableJob` created as its `k`-th. -/
inductive Pair
  | own
  | thenable (k : ℕ)
  deriving DecidableEq

/-- What has happened to the promise.  A call is taken if it did not find that a call had already been
made.  A call of `PromiseObject::resolve` or `PromiseObject::reject` counts as one of the own pair. -/
inductive Happening (R V : Type)
  | called (pair : Pair) (taken : Bool)
  | settled (state : State) (valueOrReason : V)
  | registered (reaction : R)

structure Promise (R V : Type) where
  state : State
  reactionsOrResult : ReactionsOrResult R V
  /-- Whether the slots of the own pair refer to the promise.  There is no such pair with
  `PROMISE_FLAG_DEFAULT_RESOLVING_FUNCTIONS`. -/
  resolvingFunctions : Option Bool
  /-- Whether the slots of the pairs for thenables refer to the promise. -/
  thenableFunctions : List Bool
  /-- The resolutions for which `ResolvePromiseInternal` is looking up `then`. -/
  lookups : List V
  /-- The queued `PromiseResolveThenableJob`s. -/
  thenableJobs : ℕ
  /-- The queued `PromiseResolveBuiltinThenableJob`s. -/
  builtinThenableJobs : ℕ
  /-- The reactions on other promises that are default resolving handlers for this one. -/
  defaultResolvingHandlers : ℕ
  /-- The reaction jobs that have been queued. -/
  reactionJobs : List (R × State × V)
  history : List (Happening R V)

/-- A new promise, with its own resolving functions or without. -/
def create (defaultResolvingFunctions : Bool) : Promise R V where
  state := .Pending
  reactionsOrResult := .undefined
  resolvingFunctions := if defaultResolvingFunctions then none else some true
  thenableFunctions := []
  lookups := []
  thenableJobs := 0
  builtinThenableJobs := 0
  defaultResolvingHandlers := 0
  reactionJobs := []
  history := []

/-- What the code can find out about values. -/
structure Values (V : Type) where
  isObject : V → Bool
  /-- The promise itself. -/
  promise : V
  selfResolutionError : V

/-- How the lookup of `then` ends.  With `terminated` there is no exception to be caught. -/
inductive ThenLookup (V : Type)
  | terminated
  | threw (error : V)
  | notCallable
  | callable
  | builtinThen

namespace Promise

/-! ## Settling -/

/-- `ForEachReaction`, the reactions in their order. -/
def reactions : ReactionsOrResult R V → List R
  | .undefined => []
  | .record r => [r]
  | .list rs => rs
  | .result _ => []

def resolvePromise (valueOrReason : V) (state : State) (p : Promise R V) : Promise R V :=
  { p with
    state := state
    reactionsOrResult := .result valueOrReason
    reactionJobs := p.reactionJobs ++ (reactions p.reactionsOrResult).map fun r => (r, state, valueOrReason)
    history := p.history ++ [.settled state valueOrReason] }

def addPromiseReaction (r : R) : ReactionsOrResult R V → ReactionsOrResult R V
  | .undefined => .record r
  | .record r₀ => .list [r₀, r]
  | .list rs => .list (rs ++ [r])
  | .result v => .result v

def performPromiseThen (r : R) (p : Promise R V) : Promise R V :=
  if p.state = .Pending then
    { p with
      reactionsOrResult := addPromiseReaction r p.reactionsOrResult
      history := p.history ++ [.registered r] }
  else match p.reactionsOrResult with
    | .result valueOrReason =>
      { p with
        reactionJobs := p.reactionJobs ++ [(r, p.state, valueOrReason)]
        history := p.history ++ [.registered r] }
    | _ => p

/-! ## Resolving -/

variable (vals : Values V)

/-- `ResolvePromiseInternal`, up to the lookup of `then`. -/
def resolvePromiseInternal [DecidableEq V] (resolution : V) (p : Promise R V) : Promise R V :=
  if vals.isObject resolution = false then p.resolvePromise resolution .Fulfilled
  else if resolution = vals.promise then p.resolvePromise vals.selfResolutionError .Rejected
  else { p with lookups := p.lookups ++ [resolution] }

/-- `ResolvePromiseInternal`, from the lookup of `then` on. -/
def afterLookup (resolution : V) (lookup : ThenLookup V) (p : Promise R V) : Promise R V :=
  if p.state ≠ .Pending then p
  else match lookup with
    | .terminated => p
    | .threw error => p.resolvePromise error .Rejected
    | .notCallable => p.resolvePromise resolution .Fulfilled
    | .callable => { p with thenableJobs := p.thenableJobs + 1 }
    | .builtinThen => { p with builtinThenableJobs := p.builtinThenableJobs + 1 }

/-! ## The resolving functions -/

/-- Whether the slots of the pair refer to the promise, if there is such a pair. -/
def refers (p : Promise R V) : Pair → Option Bool
  | .own => p.resolvingFunctions
  | .thenable k => p.thenableFunctions[k]?

def clearResolutionFunctionSlots (p : Promise R V) : Pair → Promise R V
  | .own => { p with resolvingFunctions := some false }
  | .thenable k => { p with thenableFunctions := p.thenableFunctions.set k false }

def called (pair : Pair) (taken : Bool) (p : Promise R V) : Promise R V :=
  { p with history := p.history ++ [.called pair taken] }

/-- A call of a function of a pair, where `act` is what the function does in the end. -/
def callFunction (pair : Pair) (act : Promise R V → Promise R V) (p : Promise R V) : Option (Promise R V) :=
  match p.refers pair with
  | none => none
  | some false => some (p.called pair false)
  | some true =>
    if p.state ≠ .Pending then some ((p.clearResolutionFunctionSlots pair).called pair false)
    else some (act ((p.clearResolutionFunctionSlots pair).called pair true))

/-- A call of `PromiseObject::resolve` or `PromiseObject::reject`. -/
def callDirectly (act : Promise R V → Promise R V) (p : Promise R V) : Option (Promise R V) :=
  if p.state ≠ .Pending then some (p.called .own false)
  else match p.resolvingFunctions with
    | none => some (act (p.called .own true))
    | some _ => p.callFunction .own act

def rejectPromiseFunction (pair : Pair) (reason : V) : Promise R V → Option (Promise R V) :=
  callFunction pair (resolvePromise reason .Rejected)

def reject (reason : V) : Promise R V → Option (Promise R V) := callDirectly (resolvePromise reason .Rejected)

/-! ## Jobs -/

/-- `PromiseResolveThenableJob`, up to the call of `then`: what that does with the functions are events
of their own. -/
def promiseResolveThenableJob (p : Promise R V) : Option (Promise R V) :=
  match p.thenableJobs with
  | 0 => none
  | n + 1 => some { p with thenableJobs := n, thenableFunctions := p.thenableFunctions ++ [true] }

/-- `PromiseResolveBuiltinThenableJob`, with the exception if the reaction could not be registered. -/
def promiseResolveBuiltinThenableJob (exception : Option V) (p : Promise R V) : Option (Promise R V) :=
  match p.builtinThenableJobs with
  | 0 => none
  | n + 1 => match exception with
    | none => some { p with
        builtinThenableJobs := n
        defaultResolvingHandlers := p.defaultResolvingHandlers + 1 }
    | some e =>
      if p.state ≠ .Pending then some { p with builtinThenableJobs := n }
      else some ({ p with builtinThenableJobs := n }.resolvePromise e .Rejected)

/-- The lookup of `then` for the `i`-th resolution ends. -/
def thenLookup (i : ℕ) (lookup : ThenLookup V) (p : Promise R V) : Option (Promise R V) :=
  match p.lookups[i]? with
  | none => none
  | some resolution => some ({ p with lookups := p.lookups.eraseIdx i }.afterLookup resolution lookup)

variable [DecidableEq V]

def resolvePromiseFunction (pair : Pair) (resolution : V) : Promise R V → Option (Promise R V) :=
  callFunction pair (resolvePromiseInternal vals resolution)

def resolve (resolution : V) : Promise R V → Option (Promise R V) :=
  callDirectly (resolvePromiseInternal vals resolution)

/-- `DefaultResolvingPromiseReactionJob`, with the state that it was queued for. -/
def defaultResolvingPromiseReactionJob (fulfilled : Bool) (argument : V) (p : Promise R V) : Option (Promise R V) :=
  match p.defaultResolvingHandlers with
  | 0 => none
  | n + 1 =>
    if p.state ≠ .Pending then some { p with defaultResolvingHandlers := n }
    else if fulfilled then some ({ p with defaultResolvingHandlers := n }.resolvePromiseInternal vals argument)
    else some ({ p with defaultResolvingHandlers := n }.resolvePromise argument .Rejected)

end Promise

/-! ## Runs -/

inductive PromiseEvent (R V : Type)
  | resolvePromiseFunction (pair : Pair) (resolution : V)
  | rejectPromiseFunction (pair : Pair) (reason : V)
  | resolve (resolution : V)
  | reject (reason : V)
  | thenLookup (i : ℕ) (lookup : ThenLookup V)
  | promiseResolveThenableJob
  | promiseResolveBuiltinThenableJob (exception : Option V)
  | defaultResolvingPromiseReactionJob (fulfilled : Bool) (argument : V)
  | performPromiseThen (reaction : R)

def step [DecidableEq V] (vals : Values V) : PromiseEvent R V → Promise R V → Option (Promise R V)
  | .resolvePromiseFunction pair resolution => Promise.resolvePromiseFunction vals pair resolution
  | .rejectPromiseFunction pair reason => Promise.rejectPromiseFunction pair reason
  | .resolve resolution => Promise.resolve vals resolution
  | .reject reason => Promise.reject reason
  | .thenLookup i lookup => Promise.thenLookup i lookup
  | .promiseResolveThenableJob => Promise.promiseResolveThenableJob
  | .promiseResolveBuiltinThenableJob exception => Promise.promiseResolveBuiltinThenableJob exception
  | .defaultResolvingPromiseReactionJob fulfilled argument =>
    Promise.defaultResolvingPromiseReactionJob vals fulfilled argument
  | .performPromiseThen r => fun p => some (p.performPromiseThen r)

/-! ## What the claims of a promise are -/

variable (history : List (Happening R V))

/-- The calls of a history. -/
def calls : List (Pair × Bool) :=
  history.filterMap fun
    | .called pair taken => some (pair, taken)
    | _ => none

/-- The settlements of a history. -/
def settlements : List (State × V) :=
  history.filterMap fun
    | .settled state v => some (state, v)
    | _ => none

/-- The registrations of a history. -/
def registrations : List R :=
  history.filterMap fun
    | .registered r => some r
    | _ => none

/-- No function of the pair has been called. -/
def Uncalled (pair : Pair) (calls : List (Pair × Bool)) : Prop := ∀ taken, (pair, taken) ∉ calls

/-- Exactly the first call of each pair has been taken. -/
def FirstTaken (calls : List (Pair × Bool)) : Prop :=
  Justified (fun before call => call.2 = true ↔ Uncalled call.1 before) calls

namespace Promise

/-- The number of things that can still settle the promise without a call of its own functions, and its
settlement. -/
def load (p : Promise R V) : ℕ :=
  p.thenableFunctions.count true + p.lookups.length + p.thenableJobs + p.builtinThenableJobs +
    p.defaultResolvingHandlers + if p.state = .Pending then 0 else 1

/-- The representation of the reactions: a list is only created for two or more of them. -/
def stored : List R → ReactionsOrResult R V
  | [] => .undefined
  | [r] => .record r
  | rs => .list rs

/-- The reactions of a pending promise are stored in the order of their registration, and those of a
settled promise have been queued in this order, with its state and value. -/
structure Reacted (p : Promise R V) : Prop where
  pending : p.state = .Pending → settlements p.history = [] ∧ p.reactionJobs = [] ∧
    p.reactionsOrResult = stored (registrations p.history)
  settled : p.state ≠ .Pending → ∃ v, settlements p.history = [(p.state, v)] ∧
    p.reactionsOrResult = .result v ∧ p.reactionJobs = (registrations p.history).map fun r => (r, p.state, v)

/-- The fate of the promise is decided by the first call: it alone is taken, before it nothing has been
under way, and after it at most one thing is that can settle the promise, or the promise is settled. -/
structure DecidedOnce (p : Promise R V) : Prop extends Reacted p where
  firstTaken : FirstTaken (calls p.history)
  uncalled : Uncalled .own (calls p.history) → p.load = 0
  load_le : p.load ≤ 1

end Promise

/-! ## One step -/

/-- A promise without resolving functions is not resolved or rejected directly a second time while it is
pending. -/
def Heeds (p : Promise R V) : PromiseEvent R V → Prop
  | .resolve _ | .reject _ =>
    p.state = .Pending → p.resolvingFunctions = none → Uncalled .own (calls p.history)
  | _ => True

section Histories

variable {history : List (Happening R V)}

@[simp] lemma calls_called (pair : Pair) (taken : Bool) :
    calls (history ++ [Happening.called pair taken]) = calls history ++ [(pair, taken)] := by
  simp [calls]

@[simp] lemma calls_settled (state : State) (v : V) :
    calls (history ++ [Happening.settled state v]) = calls history := by
  simp [calls]

@[simp] lemma calls_registered (r : R) : calls (history ++ [Happening.registered r]) = calls history := by
  simp [calls]

@[simp] lemma settlements_called (pair : Pair) (taken : Bool) :
    settlements (history ++ [Happening.called pair taken]) = settlements history := by
  simp [settlements]

@[simp] lemma settlements_settled (state : State) (v : V) :
    settlements (history ++ [Happening.settled state v]) = settlements history ++ [(state, v)] := by
  simp [settlements]

@[simp] lemma settlements_registered (r : R) :
    settlements (history ++ [Happening.registered r]) = settlements history := by
  simp [settlements]

@[simp] lemma registrations_called (pair : Pair) (taken : Bool) :
    registrations (history ++ [Happening.called pair taken]) = registrations history := by
  simp [registrations]

@[simp] lemma registrations_settled (state : State) (v : V) :
    registrations (history ++ [Happening.settled state v]) = registrations history := by
  simp [registrations]

@[simp] lemma registrations_registered (r : R) :
    registrations (history ++ [Happening.registered r]) = registrations history ++ [r] := by
  simp [registrations]

lemma uncalled_concat {pair pair' : Pair} {taken : Bool} {cs : List (Pair × Bool)} :
    Uncalled pair (cs ++ [(pair', taken)]) ↔ Uncalled pair cs ∧ pair ≠ pair' := by
  constructor
  · intro h
    refine ⟨fun t ht => h t (mem_append_left _ ht), ?_⟩
    rintro rfl
    exact h taken (by simp)
  · rintro ⟨h, hne⟩ t ht
    obtain ht | ht := mem_append.1 ht
    · exact h t ht
    · exact hne (Prod.ext_iff.1 (mem_singleton.1 ht)).1

end Histories

namespace Promise

open Option

variable {p q : Promise R V}

/-- The invariant of a run: the slots of the functions tell whether there has been a call. -/
structure Carried (p : Promise R V) : Prop extends DecidedOnce p where
  refers : ∀ pair live, p.refers pair = some live → (live = true ↔ Uncalled pair (calls p.history))
  created : ∀ k, ¬ Uncalled (.thenable k) (calls p.history) → k < p.thenableFunctions.length

/-- The promise has been settled, or something is under way that can settle it. -/
structure Decides (p q : Promise R V) : Prop where
  refers : q.refers = p.refers
  length : q.thenableFunctions.length = p.thenableFunctions.length
  calls : calls q.history = calls p.history
  load : q.load ≤ p.load + 1
  reacted : p.Reacted → q.Reacted

lemma Reacted.of_same (h : p.Reacted) (hstate : q.state = p.state)
    (hslot : q.reactionsOrResult = p.reactionsOrResult) (hjobs : q.reactionJobs = p.reactionJobs)
    (hsettlements : settlements q.history = settlements p.history)
    (hregistrations : registrations q.history = registrations p.history) : q.Reacted := by
  constructor
  · rw [hstate, hslot, hjobs, hsettlements, hregistrations]
    exact h.pending
  · rw [hstate, hslot, hjobs, hsettlements, hregistrations]
    exact h.settled

lemma Reacted.called (h : p.Reacted) (pair : Pair) (taken : Bool) : (p.called pair taken).Reacted :=
  h.of_same rfl rfl rfl (settlements_called pair taken) (registrations_called pair taken)

lemma Reacted.clearResolutionFunctionSlots (h : p.Reacted) (pair : Pair) :
    (p.clearResolutionFunctionSlots pair).Reacted := by
  cases pair with
  | own => exact h.of_same rfl rfl rfl rfl rfl
  | thenable k => exact h.of_same rfl rfl rfl rfl rfl

lemma reactions_stored (rs : List R) : reactions (stored rs : ReactionsOrResult R V) = rs := by
  match rs with
  | [] => rfl
  | [r] => rfl
  | r :: r' :: rs => rfl

lemma addPromiseReaction_stored (r : R) (rs : List R) :
    addPromiseReaction r (stored rs : ReactionsOrResult R V) = stored (rs ++ [r]) := by
  match rs with
  | [] => rfl
  | [r₀] => rfl
  | r₀ :: r₁ :: rs => rfl

lemma pending_of_load (h : p.load = 0) : p.state = .Pending := by
  by_contra hstate
  rw [load, if_neg hstate] at h
  omega

lemma decides_refl : Decides p p := ⟨rfl, rfl, rfl, Nat.le_succ _, id⟩

lemma decides_resolvePromise (hp : p.state = .Pending) (v : V) {state : State} (hstate : state ≠ .Pending) :
    Decides p (p.resolvePromise v state) where
  refers := by
    funext pair
    cases pair <;> rfl
  length := rfl
  calls := calls_settled state v
  load := by
    dsimp only [load, resolvePromise]
    simp [hstate]
  reacted h := by
    obtain ⟨hsettlements, hjobs, hreactions⟩ := h.pending hp
    refine ⟨fun hs => absurd hs hstate, fun _ => ⟨v, ?_, rfl, ?_⟩⟩
    · simp [resolvePromise, hsettlements]
    · simp [resolvePromise, hjobs, hreactions, reactions_stored]

lemma decides_reject (hp : p.state = .Pending) (reason : V) : Decides p (p.resolvePromise reason .Rejected) :=
  decides_resolvePromise hp reason nofun

lemma decides_of_same (hrefers : q.refers = p.refers)
    (hlength : q.thenableFunctions.length = p.thenableFunctions.length) (hhistory : q.history = p.history)
    (hload : q.load ≤ p.load + 1) (hstate : q.state = p.state)
    (hslot : q.reactionsOrResult = p.reactionsOrResult) (hjobs : q.reactionJobs = p.reactionJobs) :
    Decides p q where
  refers := hrefers
  length := hlength
  calls := by rw [hhistory]
  load := hload
  reacted h := h.of_same hstate hslot hjobs (by rw [hhistory]) (by rw [hhistory])

lemma refers_congr (hown : q.resolvingFunctions = p.resolvingFunctions)
    (hthenable : q.thenableFunctions = p.thenableFunctions) : q.refers = p.refers := by
  funext pair
  cases pair with
  | own => exact hown
  | thenable k => exact congrArg (·[k]?) hthenable

lemma decides_resolvePromiseInternal [DecidableEq V] {vals : Values V} (hp : p.state = .Pending)
    (resolution : V) : Decides p (p.resolvePromiseInternal vals resolution) := by
  unfold resolvePromiseInternal
  split_ifs
  · exact decides_resolvePromise hp resolution nofun
  · exact decides_reject hp _
  · refine decides_of_same (refers_congr rfl rfl) rfl rfl ?_ rfl rfl rfl
    dsimp only [load]
    rw [List.length_append, length_singleton]
    omega

lemma decides_afterLookup (resolution : V) (lookup : ThenLookup V) : Decides p (p.afterLookup resolution lookup) := by
  unfold afterLookup
  by_cases hp : p.state = .Pending
  · rw [if_neg (not_not.2 hp)]
    cases lookup with
    | terminated => exact decides_refl
    | threw error => exact decides_reject hp error
    | notCallable => exact decides_resolvePromise hp resolution nofun
    | callable =>
      refine decides_of_same (refers_congr rfl rfl) rfl rfl ?_ rfl rfl rfl
      dsimp only [load]
      omega
    | builtinThen =>
      refine decides_of_same (refers_congr rfl rfl) rfl rfl ?_ rfl rfl rfl
      dsimp only [load]
      omega
  · rw [if_pos hp]
    exact decides_refl

section

variable (h : p.Carried)

include h

lemma Carried.moves {p₀ : Promise R V} (hd : Decides p₀ q) (hreacted : p₀.Reacted)
    (hrefers : p₀.refers = p.refers) (hlength : p₀.thenableFunctions.length = p.thenableFunctions.length)
    (hhistory : p₀.history = p.history) (hload : p₀.load + 1 ≤ p.load) : q.Carried := by
  have hle : q.load ≤ p.load := hd.load.trans hload
  have hcalls : calls q.history = calls p.history := by rw [hd.calls, hhistory]
  refine ⟨⟨hd.reacted hreacted, ?_, ?_, hle.trans h.load_le⟩, ?_, ?_⟩
  · rw [hcalls]
    exact h.firstTaken
  · rw [hcalls]
    intro hun
    have := h.uncalled hun
    omega
  · rw [hcalls, hd.refers, hrefers]
    exact h.refers
  · rw [hcalls, hd.length, hlength]
    exact h.created

lemma Carried.taken {pair : Pair} {p₀ : Promise R V} (hd : Decides p₀ q)
    (hreacted : p₀.Reacted) (huncalled : Uncalled pair (calls p.history))
    (hself : p₀.refers pair ≠ some true) (hothers : ∀ pair', pair' ≠ pair → p₀.refers pair' = p.refers pair')
    (hlength : p₀.thenableFunctions.length = p.thenableFunctions.length)
    (hbound : ∀ k, pair = .thenable k → k < p.thenableFunctions.length)
    (hhistory : p₀.history = p.history ++ [Happening.called pair true]) (hload : p₀.load = 0)
    (hown : pair = .own ∨ ¬ Uncalled .own (calls p.history)) : q.Carried := by
  have hcalls : calls q.history = calls p.history ++ [(pair, true)] := by simp [hd.calls, hhistory]
  refine ⟨⟨hd.reacted hreacted, ?_, fun hun => ?_, ?_⟩, fun pair' live hlive => ?_, fun k hk => ?_⟩
  · rw [hcalls]
    exact justified_concat.2 ⟨h.firstTaken, iff_of_true rfl huncalled⟩
  · rw [hcalls, uncalled_concat] at hun
    exact absurd hun.1 (hown.resolve_left fun heq => hun.2 heq.symm)
  · have := hd.load
    omega
  · rw [hcalls, uncalled_concat]
    rw [hd.refers] at hlive
    by_cases heq : pair' = pair
    · rw [heq] at hlive
      refine iff_of_false (fun ht => hself (ht ▸ hlive)) fun hun => hun.2 heq
    · rw [hothers pair' heq] at hlive
      exact (h.refers pair' live hlive).trans (and_iff_left heq).symm
  · rw [hd.length, hlength]
    rw [hcalls, uncalled_concat, not_and_or, not_not] at hk
    obtain hk | hk := hk
    · exact h.created k hk
    · exact hbound k hk.symm

lemma Carried.refused {pair : Pair} (hcalled : ¬ Uncalled pair (calls p.history)) : (p.called pair false).Carried := by
  have hcalls : calls (p.called pair false).history = calls p.history ++ [(pair, false)] := calls_called _ _
  have huncalled (pair' : Pair) :
      Uncalled pair' (calls p.history ++ [(pair, false)]) ↔ Uncalled pair' (calls p.history) := by
    rw [uncalled_concat]
    refine and_iff_left_of_imp fun hun heq => hcalled (heq ▸ hun)
  refine ⟨⟨h.toReacted.called _ _, ?_, fun hun => ?_, h.load_le⟩, fun pair' live hlive => ?_, fun k hk => ?_⟩
  · rw [hcalls]
    exact justified_concat.2 ⟨h.firstTaken, iff_of_false nofun hcalled⟩
  · rw [hcalls, huncalled] at hun
    exact h.uncalled hun
  · rw [hcalls, huncalled]
    have hlive' : p.refers pair' = some live := by
      cases pair' <;> exact hlive
    exact h.refers pair' live hlive'
  · rw [hcalls, huncalled] at hk
    exact h.created k hk

/-! ### Calls -/

/-- While the slots of a pair refer to the promise, it is pending and nothing else can settle it. -/
lemma Carried.sole {pair : Pair} (hlive : p.refers pair = some true) :
    p.state = .Pending ∧ (p.clearResolutionFunctionSlots pair).load = 0 ∧
      (pair = .own ∨ ¬ Uncalled .own (calls p.history)) := by
  cases pair with
  | own =>
    have hload := h.uncalled ((h.refers .own true hlive).1 rfl)
    exact ⟨pending_of_load hload, hload, .inl rfl⟩
  | thenable k =>
    have hlive' : p.thenableFunctions[k]? = some true := hlive
    obtain ⟨hlt, hget⟩ := List.getElem?_eq_some_iff.1 hlive'
    have hcount : 0 < p.thenableFunctions.count true := by
      rw [count_pos_iff]
      exact hget ▸ getElem_mem hlt
    have hset : (p.thenableFunctions.set k false).count true = p.thenableFunctions.count true - 1 := by
      rw [count_set hlt]
      simp [hget]
    have hle := h.load_le
    have hpending : p.state = .Pending := by
      by_contra hstate
      rw [load, if_neg hstate] at hle
      omega
    refine ⟨hpending, ?_, .inr fun hun => ?_⟩
    · dsimp only [load, clearResolutionFunctionSlots] at hle ⊢
      rw [hset, if_pos hpending]
      omega
    · have := h.uncalled hun
      simp only [load] at this
      omega

lemma Carried.callFunction {pair : Pair} {act : Promise R V → Promise R V}
    (hact : ∀ p : Promise R V, p.state = .Pending → Decides p (act p)) (hq : p.callFunction pair act = some q) :
    q.Carried := by
  unfold Promise.callFunction at hq
  cases hrefers : p.refers pair with
  | none => simp [hrefers] at hq
  | some live =>
    cases live with
    | false =>
      simp only [hrefers, some.injEq] at hq
      rw [← hq]
      exact h.refused fun hun => nomatch (h.refers pair false hrefers).2 hun
    | true =>
      obtain ⟨hpending, hload, hown⟩ := h.sole hrefers
      simp only [hrefers, ne_eq, hpending, not_true_eq_false, if_false, some.injEq] at hq
      rw [← hq]
      have hpending' : ((p.clearResolutionFunctionSlots pair).called pair true).state = .Pending := by
        cases pair <;> exact hpending
      refine h.taken (hact _ hpending') ((h.toReacted.clearResolutionFunctionSlots pair).called pair true)
        ((h.refers pair true hrefers).1 rfl) ?_ (fun pair' hne => ?_) ?_ (fun k hk => ?_) ?_ hload hown
      · cases pair with
        | own => simp [Promise.refers, called, clearResolutionFunctionSlots]
        | thenable k => simp [Promise.refers, called, clearResolutionFunctionSlots, getElem?_set]
      · cases pair with
        | own => cases pair' with
          | own => exact absurd rfl hne
          | thenable k' => rfl
        | thenable k => cases pair' with
          | own => rfl
          | thenable k' =>
            have hne' : k ≠ k' := fun heq => hne (heq ▸ rfl)
            exact getElem?_set_ne hne'
      · cases pair with
        | own => rfl
        | thenable k => exact length_set
      · rw [hk] at hrefers
        exact (List.getElem?_eq_some_iff.1 hrefers).1
      · cases pair <;> rfl

lemma Carried.callDirectly {act : Promise R V → Promise R V}
    (hact : ∀ p : Promise R V, p.state = .Pending → Decides p (act p)) (hq : p.callDirectly act = some q) :
    ((p.state = .Pending → p.resolvingFunctions = none → Uncalled .own (calls p.history)) → q.Carried) ∧
      (q.DecidedOnce → p.state = .Pending → p.resolvingFunctions = none → Uncalled .own (calls p.history)) := by
  unfold Promise.callDirectly at hq
  by_cases hp : p.state = .Pending
  · rw [if_neg (not_not.2 hp)] at hq
    cases hfunctions : p.resolvingFunctions with
    | none =>
      simp only [hfunctions, some.injEq] at hq
      have hd : Decides (p.called .own true) q := hq ▸ hact _ hp
      refine ⟨fun hheeds => ?_, fun hdecided _ _ => ?_⟩
      · have huncalled := hheeds hp rfl
        refine h.taken hd (h.toReacted.called _ _) huncalled (fun hlive => ?_) (fun pair' _ => ?_) rfl nofun rfl
          (h.uncalled huncalled) (.inl rfl)
        · cases hfunctions.symm.trans hlive
        · cases pair' <;> rfl
      · have hfirst := hdecided.firstTaken
        rw [hd.calls] at hfirst
        have hcalls : calls (p.called .own true).history = calls p.history ++ [(Pair.own, true)] := calls_called _ _
        rw [hcalls] at hfirst
        exact (justified_concat.1 hfirst).2.1 rfl
    | some live =>
      simp only [hfunctions] at hq
      exact ⟨fun _ => h.callFunction hact hq, fun _ _ hnone => nomatch hnone⟩
  · rw [if_pos hp, some.injEq] at hq
    refine ⟨fun _ => ?_, fun _ hpending => absurd hpending hp⟩
    rw [← hq]
    exact h.refused fun hun => hp (pending_of_load (h.uncalled hun))

/-! ### Jobs and reactions -/

lemma Carried.thenLookup {i : ℕ} {lookup : ThenLookup V} (hq : p.thenLookup i lookup = some q) : q.Carried := by
  unfold Promise.thenLookup at hq
  cases hresolution : p.lookups[i]? with
  | none => simp [hresolution] at hq
  | some resolution =>
    simp only [hresolution, some.injEq] at hq
    obtain ⟨hlt, -⟩ := List.getElem?_eq_some_iff.1 hresolution
    rw [← hq]
    refine h.moves (decides_afterLookup resolution lookup) (h.toReacted.of_same rfl rfl rfl rfl rfl)
      (refers_congr rfl rfl) rfl rfl ?_
    simp only [load, length_eraseIdx_of_lt hlt]
    omega

lemma Carried.promiseResolveThenableJob (hq : p.promiseResolveThenableJob = some q) : q.Carried := by
  unfold Promise.promiseResolveThenableJob at hq
  cases hjobs : p.thenableJobs with
  | zero => simp [hjobs] at hq
  | succ n =>
    simp only [hjobs, some.injEq] at hq
    rw [← hq]
    have hload : ({ p with thenableJobs := n, thenableFunctions := p.thenableFunctions ++ [true] } :
        Promise R V).load = p.load := by
      simp only [load, count_append, count_singleton_self, hjobs]
      omega
    refine ⟨⟨h.toReacted.of_same rfl rfl rfl rfl rfl, h.firstTaken, fun hun => hload ▸ h.uncalled hun,
      hload ▸ h.load_le⟩, fun pair live hlive => ?_, fun k hk => ?_⟩
    · cases pair with
      | own => exact h.refers .own live hlive
      | thenable k =>
        have hget : (p.thenableFunctions ++ [true])[k]? = some live := hlive
        by_cases hlt : k < p.thenableFunctions.length
        · rw [getElem?_append_left hlt] at hget
          exact h.refers (.thenable k) live hget
        · -- the new pair
          rw [getElem?_append_right (not_lt.1 hlt), getElem?_singleton] at hget
          split_ifs at hget
          exact iff_of_true (some.inj hget).symm (not_not.1 fun hcalled => hlt (h.created k hcalled))
    · have := h.created k hk
      simp only [List.length_append, length_singleton]
      omega

lemma Carried.promiseResolveBuiltinThenableJob {exception : Option V}
    (hq : p.promiseResolveBuiltinThenableJob exception = some q) : q.Carried := by
  unfold Promise.promiseResolveBuiltinThenableJob at hq
  cases hjobs : p.builtinThenableJobs with
  | zero => simp [hjobs] at hq
  | succ n =>
    simp only [hjobs] at hq
    have hmoves {q : Promise R V} (hd : Decides { p with builtinThenableJobs := n } q) : q.Carried := by
      refine h.moves hd (h.toReacted.of_same rfl rfl rfl rfl rfl) (refers_congr rfl rfl) rfl rfl ?_
      simp only [load, hjobs]
      omega
    cases exception with
    | none =>
      cases hq
      refine hmoves (decides_of_same (refers_congr rfl rfl) rfl rfl ?_ rfl rfl rfl)
      simp only [load]
      omega
    | some e =>
      dsimp only at hq
      split_ifs at hq with hp
      · cases hq
        exact hmoves decides_refl
      · cases hq
        refine hmoves (decides_reject ?_ e)
        exact not_not.1 hp

end

lemma Carried.defaultResolvingPromiseReactionJob [DecidableEq V] {vals : Values V} (h : p.Carried)
    {fulfilled : Bool} {argument : V}
    (hq : p.defaultResolvingPromiseReactionJob vals fulfilled argument = some q) : q.Carried := by
  unfold Promise.defaultResolvingPromiseReactionJob at hq
  cases hhandlers : p.defaultResolvingHandlers with
  | zero => simp [hhandlers] at hq
  | succ n =>
    simp only [hhandlers] at hq
    have hmoves {q : Promise R V} (hd : Decides { p with defaultResolvingHandlers := n } q) : q.Carried := by
      refine h.moves hd (h.toReacted.of_same rfl rfl rfl rfl rfl) (refers_congr rfl rfl) rfl rfl ?_
      simp only [load, hhandlers]
      omega
    split_ifs at hq with hp hfulfilled
    · cases hq
      exact hmoves decides_refl
    · cases hq
      refine hmoves (decides_resolvePromiseInternal ?_ argument)
      exact not_not.1 hp
    · cases hq
      refine hmoves (decides_reject ?_ argument)
      exact not_not.1 hp

lemma Carried.performPromiseThen (h : p.Carried) (r : R) : (p.performPromiseThen r).Carried := by
  have hreacted (q : Promise R V) (hrefers : q.refers = p.refers) (hload : q.load = p.load)
      (hlength : q.thenableFunctions.length = p.thenableFunctions.length)
      (hhistory : q.history = p.history ++ [Happening.registered r]) (hq : q.Reacted) : q.Carried := by
    have hcalls : calls q.history = calls p.history := by simp [hhistory]
    refine ⟨⟨hq, ?_, ?_, hload ▸ h.load_le⟩, ?_, ?_⟩
    · rw [hcalls]
      exact h.firstTaken
    · rw [hcalls, hload]
      exact h.uncalled
    · rw [hcalls, hrefers]
      exact h.refers
    · rw [hcalls, hlength]
      exact h.created
  unfold Promise.performPromiseThen
  split_ifs with hp
  · obtain ⟨hsettlements, hjobs, hreactions⟩ := h.pending hp
    refine hreacted _ (refers_congr rfl rfl) rfl rfl rfl ⟨fun _ => ⟨?_, hjobs, ?_⟩, fun hs => absurd hp hs⟩
    · simp [hsettlements]
    · simp [hreactions, addPromiseReaction_stored]
  · obtain ⟨v, hsettlements, hslot, hjobs⟩ := h.settled hp
    rw [hslot]
    dsimp only
    rw [← hslot]
    refine hreacted _ (refers_congr rfl rfl) rfl rfl rfl ⟨fun hs => absurd hs hp, fun _ => ⟨v, ?_, hslot, ?_⟩⟩
    · simp [hsettlements]
    · simp [← hjobs]

/-! ## The invariant -/

/-- Each event keeps the invariant as long as a promise without resolving functions is not resolved again,
and then the promise no longer is decided once. -/
lemma Carried.step [DecidableEq V] {vals : Values V} {e : PromiseEvent R V} (h : p.Carried)
    (hq : PromiseObject.step vals e p = some q) : (Heeds p e → q.Carried) ∧ (q.DecidedOnce → Heeds p e) := by
  cases e with
  | resolvePromiseFunction pair x =>
    exact ⟨fun _ => h.callFunction (fun _ hp => decides_resolvePromiseInternal hp x) hq, fun _ => trivial⟩
  | rejectPromiseFunction pair v =>
    exact ⟨fun _ => h.callFunction (fun _ hp => decides_reject hp v) hq, fun _ => trivial⟩
  | resolve x => exact h.callDirectly (fun _ hp => decides_resolvePromiseInternal hp x) hq
  | reject v => exact h.callDirectly (fun _ hp => decides_reject hp v) hq
  | thenLookup i lookup => exact ⟨fun _ => h.thenLookup hq, fun _ => trivial⟩
  | promiseResolveThenableJob => exact ⟨fun _ => h.promiseResolveThenableJob hq, fun _ => trivial⟩
  | promiseResolveBuiltinThenableJob exception =>
    exact ⟨fun _ => h.promiseResolveBuiltinThenableJob hq, fun _ => trivial⟩
  | defaultResolvingPromiseReactionJob fulfilled argument =>
    exact ⟨fun _ => h.defaultResolvingPromiseReactionJob hq, fun _ => trivial⟩
  | performPromiseThen r =>
    cases hq
    exact ⟨fun _ => h.performPromiseThen r, fun _ => trivial⟩

end Promise

/-! ## Every run -/

/-- Values of which those from ten on are objects, and `10` is the promise. -/
def numbers : Values ℕ := ⟨(10 ≤ ·), 10, 0⟩

end SpiderMonkey.PromiseObject
