import SpiderMonkey.Frontend.EmitterScope

/-!
# Name resolution

A name is resolved by the nearest scope that binds it or has a location for free names.  The caches of the scopes
make no difference.
-/

namespace SpiderMonkey.Frontend.NameLookup

open NameLocation Function

variable {Name : Type} [DecidableEq Name] {info : CompilationInfo Name} {compiled : List (Scope Name)} {name : Name}
  {loc : NameLocation}

/-! ## Resolution without caches -/

namespace EnteredScope

def location (scope : EnteredScope Name) (info : CompilationInfo Name) (name : Name) : Option NameLocation :=
  match boundNames scope.bindings name with
  | some loc => some loc
  | none => if nameCanBeFree info name then scope.fallbackFreeNameLocation else none

def hops (scope : EnteredScope Name) : UInt8 := if scope.hasEnvironment then 1 else 0

end EnteredScope

def environments (scopes : List (EnteredScope Name)) : ℕ := scopes.countP (·.hasEnvironment)

/-- The location of a name as seen from the first of the scopes. -/
def resolve (info : CompilationInfo Name) (name : Name) : List (EnteredScope Name) → Option NameLocation
  | [] => searchInEnclosingScope name info.enclosingScope 0
  | scope :: enclosing =>
    match scope.location info name with
    | some loc => some loc
    | none => (resolve info name enclosing).map (addHops scope.hops)

lemma searchInEnclosingScope_cons (name : Name) (scope : Scope Name) (enclosing : List (Scope Name)) :
    (∀ hops, searchInEnclosingScope name (scope :: enclosing) hops =
      searchInEnclosingScope name enclosing (if scope.hasSyntacticEnvironment then hops + 1 else hops)) ∨
    (∃ kind slot, ∀ hops, searchInEnclosingScope name (scope :: enclosing) hops =
      some (.environmentCoordinate kind hops slot)) ∨
    ∃ loc, (∀ more, Option.map (addHops more) loc = loc) ∧ ∀ hops,
      searchInEnclosingScope name (scope :: enclosing) hops = loc := by
  cases hkind : scope.kind <;> cases henv : scope.hasSyntacticEnvironment <;>
    cases hextensible : scope.funHasExtensibleScope <;>
    rcases hbinding : scope.binding name with _ | ⟨kind, bindLoc⟩ <;> simp [searchInEnclosingScope, hkind, henv, hextensible, hbinding, addHops]
  case module.true.false.some | module.true.true.some => cases bindLoc <;> simp [addHops]
  -- what is left are evals without an environment
  all_goals
    refine .inr (.inr fun more => congrArg (Option.map · enclosing.head?) (funext fun outer => ?_))
    rw [comp_apply]
    split <;> rfl

lemma searchInEnclosingScope_add (hops more : UInt8) : searchInEnclosingScope name compiled (hops + more) =
      (searchInEnclosingScope name compiled hops).map (addHops more) := by
  induction compiled generalizing hops with
  | nil => rfl
  | cons scope enclosing ih =>
    obtain h | ⟨kind, slot, h⟩ | ⟨loc, hloc, h⟩ := searchInEnclosingScope_cons name scope enclosing
    · rw [h, h, ← ih]
      split
      · simp [UInt8.add_assoc, UInt8.add_comm more]
      · rfl
    · simp [h, addHops]
    · rw [h, h, hloc]

/-- The hops of a coordinate count the environments of the compiled scopes that are passed. -/
lemma hops_of_searchInEnclosingScope {hops : UInt8} (hfound : searchInEnclosingScope name compiled hops = some loc)
    (hlimit : hops.toNat + Scope.environmentChainLength compiled < ENVCOORD_HOPS_LIMIT) {n : ℕ} (hn : n ∈ loc.hops) :
    ∃ passed rest, compiled = passed ++ rest ∧ n = hops.toNat + Scope.environmentChainLength passed := by
  induction compiled generalizing hops with
  | nil => simp [searchInEnclosingScope] at hfound
  | cons scope enclosing ih =>
    rw [Scope.environmentChainLength, List.countP_cons, ENVCOORD_HOPS_LIMIT] at hlimit
    obtain h | ⟨kind, slot, h⟩ | ⟨loc', hloc, h⟩ := searchInEnclosingScope_cons name scope enclosing
    · have hnext : (if scope.hasSyntacticEnvironment then hops + 1 else hops).toNat =
          hops.toNat + if scope.hasSyntacticEnvironment then 1 else 0 := by
        split
        · rw [UInt8.toNat_add]
          exact Nat.mod_eq_of_lt (by simp_all; omega)
        · rfl
      obtain ⟨passed, rest, rfl, rfl⟩ := ih ((h hops).symm.trans hfound)
        (by rw [hnext, ENVCOORD_HOPS_LIMIT, Scope.environmentChainLength]; omega)
      refine ⟨scope :: passed, rest, rfl, ?_⟩
      rw [hnext, Scope.environmentChainLength, Scope.environmentChainLength, List.countP_cons]
      omega
    · cases (h hops).symm.trans hfound
      exact ⟨[], scope :: enclosing, rfl, (Option.some.inj hn).symm⟩
    · -- a coordinate would change with the hops
      have hfixed := hloc 1
      rw [← h hops, hfound] at hfixed
      cases loc <;> simp_all [addHops, NameLocation.hops]

lemma resolve_append {inner outer : List (EnteredScope Name)}
    (hinner : ∀ scope ∈ inner, scope.location info name = none) :
    resolve info name (inner ++ outer) = (resolve info name outer).map (addHops (.ofNat (environments inner))) := by
  induction inner with
  | nil => cases h : resolve info name outer <;> simp [h, environments]
  | cons scope inner ih =>
    rw [List.forall_mem_cons] at hinner
    have hhops : UInt8.ofNat (environments (scope :: inner)) = .ofNat (environments inner) + scope.hops := by
      rw [environments, List.countP_cons, UInt8.ofNat_add, EnteredScope.hops]
      cases scope.hasEnvironment <;> rfl
    simp [resolve, hinner.1, ih hinner.2, hhops]

/-! ## The caches -/

/-- The length of the environment chain that the next scope is checked with. -/
def environmentChainLength (info : CompilationInfo Name) : List (EmitterScope Name) → ℕ
  | [] => Scope.environmentChainLength info.enclosingScope
  | scope :: _ => scope.environmentChainLength.toNat

/-- The scope that was entered, with a cache of resolved names. -/
structure Agrees (info : CompilationInfo Name) (scope : EmitterScope Name)
    (entered : EnteredScope Name) (enclosing : List (EnteredScope Name)) : Prop where
  environment : scope.hasEnvironment = entered.hasEnvironment
  fallback : scope.fallbackFreeNameLocation = entered.fallbackFreeNameLocation
  bound : ∀ name, boundNames entered.bindings name ≠ none → scope.nameCache name ≠ none
  cached : ∀ name loc, scope.nameCache name = some loc → resolve info name (entered :: enclosing) = some loc

/-- The scopes of a chain agree with those that were entered, and all but the outermost one were checked. -/
inductive Sound (info : CompilationInfo Name) :
    List (EmitterScope Name) → List (EnteredScope Name) → Prop
  | nil : Sound info [] []
  | cons {scope scopes entered enclosing} (agrees : Agrees info scope entered enclosing)
      (length : entered.checked = false ∧ scopes = [] ∨
        scope.environmentChainLength.toNat = environmentChainLength info scopes + 1)
      (tail : Sound info scopes enclosing) :
      Sound info (scope :: scopes) (entered :: enclosing)

variable {scope : EmitterScope Name} {entered : EnteredScope Name} {scopes enclosing : List (EmitterScope Name)}
  {outer : List (EnteredScope Name)}

lemma Agrees.lookupInCache (h : Agrees info scope entered outer) (name : Name) :
    match scope.lookupInCache info name with
    | some loc => resolve info name (entered :: outer) = some loc
    | none => entered.location info name = none := by
  rw [EmitterScope.lookupInCache]
  cases hcache : scope.nameCache name with
  | some loc => exact h.cached name loc hcache
  | none =>
    have hbound : boundNames entered.bindings name = none := not_not.1 (mt (h.bound name) (not_not.2 hcache))
    have hlocation : entered.location info name =
        if nameCanBeFree info name then scope.fallbackFreeNameLocation else none := by
      simp [EnteredScope.location, hbound, h.fallback, nameCanBeFree]
    rw [← hlocation]
    cases hloc : entered.location info name with
    | none => rfl
    | some loc => simp [resolve, hloc]

/-- The search stops at a cached name with the location that the search for it had given. -/
lemma Sound.search_eq (h : Sound info scopes outer) (hops : UInt8) : search info name scopes hops =
      (resolve info name outer).map (addHops hops) := by
  induction h generalizing hops with
  | nil => rw [search, resolve, ← searchInEnclosingScope_add, UInt8.zero_add]
  | @cons scope scopes entered enclosing agrees length tail ih =>
    have hlookup := agrees.lookupInCache name
    rw [search]
    cases hcache : scope.lookupInCache info name with
    | some loc =>
      rw [hcache] at hlookup
      simp [hlookup]
    | none =>
      rw [hcache] at hlookup
      rw [resolve, hlookup, Option.map_map, addHops_comp, agrees.environment, EnteredScope.hops]
      cases entered.hasEnvironment <;> simp [ih, UInt8.add_comm]

lemma Sound.of_cons (h : Sound info (scope :: scopes) (entered :: outer)) : Agrees info scope entered outer ∧
      (entered.checked = false ∧ scopes = [] ∨
        scope.environmentChainLength.toNat = environmentChainLength info scopes + 1) ∧
      Sound info scopes outer := by
  cases h with
  | cons agrees length tail => exact ⟨agrees, length, tail⟩

lemma Sound.eq_nil (h : Sound info [] outer) : outer = [] := by
  cases h
  rfl

lemma Sound.environments_le {inner : List (EnteredScope Name)} (h : Sound info scopes (inner ++ outer))
    (hchecked : outer ≠ [] ∨ ∀ scope ∈ inner, scope.checked) :
    ∃ enclosing, Sound info enclosing outer ∧
      environments inner + environmentChainLength info enclosing ≤ environmentChainLength info scopes := by
  induction inner generalizing scopes with
  | nil => exact ⟨scopes, h, by simp [environments]⟩
  | cons entered inner ih =>
    cases h with
    | @cons scope scopes _ _ agrees length tail =>
      obtain ⟨enclosing, hsound, hle⟩ := ih tail (hchecked.imp_right List.forall_mem_of_forall_mem_cons)
      refine ⟨enclosing, hsound, ?_⟩
      have hcount : environments (entered :: inner) ≤ environments inner + 1 := by
        rw [environments, List.countP_cons]
        split <;> simp [environments]
      obtain ⟨hunchecked, rfl⟩ | length := length
      · -- the outermost scope: nothing of the chain is left, and it was not checked
        obtain ⟨rfl, rfl⟩ := List.append_eq_nil_iff.1 tail.eq_nil
        simp_all
      · rw [environmentChainLength, length]
        omega

/-! ## Runs -/

/-- The scopes of each emitter agree with those that were entered. -/
inductive SoundEmitters (info : CompilationInfo Name) :
    Emitters Name → List (List (EnteredScope Name)) → Prop
  | nil : SoundEmitters info [] []
  | cons {scopes entered parents outer} (length : scopes.length = entered.length)
      (chain : Sound info (scopes ++ scopesFrom parents) (entered ++ scopesFrom outer))
      (tail : SoundEmitters info parents outer) :
      SoundEmitters info (scopes :: parents) (entered :: outer)

/-- The scopes of each emitter after an event, as they were entered. -/
def ScopeEvent.open : ScopeEvent Name → List (List (EnteredScope Name)) → List (List (EnteredScope Name))
  | openEmitter, emitters => [] :: emitters
  | closeEmitter, emitters => emitters.tail
  | enter scope, scopes :: parents => (scope :: scopes) :: parents
  | leave, (_ :: scopes) :: parents => scopes :: parents
  | _, emitters => emitters

variable {emitters emitters' : Emitters Name} {opened : List (List (EnteredScope Name))} {hasMemory : Bool}

lemma SoundEmitters.chain (h : SoundEmitters info emitters opened) :
    Sound info (scopesFrom emitters) (scopesFrom opened) := by
  cases h with
  | nil => exact .nil
  | @cons scopes entered parents outer length chain tail =>
    cases scopes <;> cases entered
    · exact .nil
    · cases length
    · cases length
    · exact chain

lemma Agrees.putNameInCache (h : Agrees info scope entered outer)
    (hloc : resolve info name (entered :: outer) = some loc) :
    Agrees info (scope.putNameInCache name loc hasMemory) entered outer := by
  cases hasMemory
  · exact h
  · refine ⟨h.environment, h.fallback, fun other hbound => ?_, fun other loc' hcached => ?_⟩ <;>
      obtain rfl | hne := eq_or_ne other name
    · simp [EmitterScope.putNameInCache]
    · simpa [EmitterScope.putNameInCache, hne] using h.bound other hbound
    · obtain rfl : loc = loc' := by simpa [EmitterScope.putNameInCache] using hcached
      exact hloc
    · exact h.cached other loc' (by simpa [EmitterScope.putNameInCache, hne] using hcached)

lemma environmentChainLength_putNameInCache :
    (scope.putNameInCache name loc hasMemory).environmentChainLength = scope.environmentChainLength := by
  cases hasMemory <;> rfl

lemma SoundEmitters.lookup_eq (h : SoundEmitters info emitters opened) (name : Name) (hasMemory : Bool) :
    lookup info name hasMemory emitters = none ∧ (scopesFrom opened = [] ∨
        resolve info name (scopesFrom opened) = none) ∨
      ∃ loc emitters', lookup info name hasMemory emitters = some (loc, emitters') ∧
        resolve info name (scopesFrom opened) = some loc ∧
        SoundEmitters info emitters' opened := by
  obtain _ | @⟨_ | ⟨scope, scopes⟩, _ | ⟨entered, inner⟩, parents, outer, length, chain, tail⟩ := h
  · exact .inl ⟨rfl, .inl rfl⟩
  · exact .inl ⟨rfl, .inl rfl⟩
  · cases length
  · cases length
  · rw [List.cons_append, List.cons_append] at chain
    obtain ⟨agrees, hlength, rest⟩ := chain.of_cons
    have hlookup := agrees.lookupInCache name
    rw [lookup]
    cases hcache : scope.lookupInCache info name with
    | some loc =>
      rw [hcache] at hlookup
      exact .inr ⟨loc, _, rfl, hlookup, .cons length (.cons agrees hlength rest) tail⟩
    | none =>
      rw [hcache] at hlookup
      have hsearch : search info name (scopes ++ scopesFrom parents)
          (if scope.hasEnvironment then 1 else 0) = resolve info name (entered :: (inner ++ scopesFrom outer)) := by
        rw [rest.search_eq, resolve, hlookup, agrees.environment, EnteredScope.hops]
      simp only [EmitterScope.searchAndCache, hsearch]
      cases hloc : resolve info name (entered :: (inner ++ scopesFrom outer)) with
      | none => exact .inl ⟨rfl, .inr hloc⟩
      | some loc =>
        rw [← environmentChainLength_putNameInCache] at hlength
        exact .inr ⟨loc, _, rfl, hloc, .cons length (.cons (agrees.putNameInCache hloc) hlength rest) tail⟩

omit [DecidableEq Name] in
lemma EnteredScope.chainLength_eq {entered : EnteredScope Name} {length : UInt8}
    (h : entered.chainLength info scopes = some length) :
    entered.checked = false ∧ scopes = [] ∨ length.toNat = environmentChainLength info scopes + 1 := by
  rw [EnteredScope.chainLength] at h
  split_ifs at h with hchecked hempty
  · have hhops : checkEnvironmentChainLength info scopes =
        if environmentChainLength info scopes ≥ ENVCOORD_HOPS_LIMIT - 1 then none
        else some (.ofNat (environmentChainLength info scopes + 1)) := by
      cases scopes <;> rfl
    rw [hhops] at h
    split_ifs at h with hlimit
    cases h
    rw [ENVCOORD_HOPS_LIMIT] at hlimit
    exact .inr (UInt8.toNat_ofNat_of_lt' (by simp only [UInt8.size]; omega))
  · exact .inl ⟨by simpa using hchecked, List.isEmpty_iff.1 hempty⟩

/-- Every event keeps the caches sound. -/
lemma SoundEmitters.step {event : ScopeEvent Name} (h : SoundEmitters info emitters opened)
    (hstep : event.step info emitters = some emitters') :
    SoundEmitters info emitters' (event.open opened) := by
  cases event with
  | openEmitter =>
    cases hstep
    exact .cons rfl h.chain h
  | closeEmitter =>
    cases h with
    | nil => simp [ScopeEvent.step] at hstep
    | cons length chain tail =>
      cases hstep
      exact tail
  | enter entered =>
    cases h with
    | nil => simp [ScopeEvent.step] at hstep
    | cons length chain tail =>
      obtain ⟨n, hn, hstep⟩ := Option.bind_eq_some_iff.1 hstep
      cases hstep
      refine .cons (by simp [length]) (.cons ⟨rfl, rfl, fun _ => id, ?_⟩ (EnteredScope.chainLength_eq hn) chain) tail
      intro name loc hbound
      have hlocation : entered.location info name = some loc := by
        rw [EnteredScope.location, show boundNames entered.bindings name = some loc from hbound]
      simp only [resolve, hlocation]
  | leave =>
    obtain _ | @⟨_ | ⟨scope, scopes⟩, _ | ⟨entered, inner⟩, parents, outer, length, chain, tail⟩ := h <;>
      simp_all [ScopeEvent.step, ScopeEvent.open]
    subst hstep
    exact .cons length chain.of_cons.2.2 tail
  | lookup name hasMemory =>
    obtain ⟨⟨loc, next⟩, hlookup, rfl⟩ := Option.map_eq_some_iff.1 hstep
    obtain ⟨hnone, -⟩ | ⟨loc', next', hsome, -, hsound⟩ := h.lookup_eq name hasMemory
    · cases hnone.symm.trans hlookup
    · cases hsome.symm.trans hlookup
      exact hsound

/-- The scopes of each emitter after a run, as they were entered. -/
def openScopes (events : List (ScopeEvent Name)) : List (List (EnteredScope Name)) :=
  events.foldl (fun opened event => event.open opened) []

lemma SoundEmitters.run {events : List (ScopeEvent Name)} (h : SoundEmitters info emitters opened)
    (hrun : EventRun.run (ScopeEvent.step info) events emitters = some emitters') :
    SoundEmitters info emitters' (events.foldl (fun opened event => event.open opened) opened) := by
  induction events generalizing emitters opened with
  | nil =>
    cases hrun
    exact h
  | cons event events ih =>
    obtain ⟨next, hstep, hrun⟩ := Option.bind_eq_some_iff.1 hrun
    exact ih (h.step hstep) hrun

lemma hops_boundNames {bindings : List (Name × BindingKind × BindingLocation)}
    (hbound : boundNames bindings name = some loc) : ∀ hops ∈ loc.hops, hops = 0 := by
  induction bindings using List.reverseRecOn with
  | nil => simp [boundNames] at hbound
  | append_singleton bindings bi ih =>
    rw [boundNames, List.foldl_append, List.foldl_cons, List.foldl_nil, update_apply] at hbound
    split at hbound
    · cases hbound
      cases bi.2.2 <;> simp [fromBinding, NameLocation.hops]
    · exact ih hbound

/-- After every run a lookup from the innermost scope gives the location that the nearest scope has for the name, with
as many hops more as there are environments before that scope, and that number is not wrapped.  If no scope of the
compilation has the name, then it is searched for in the compiled scopes. -/
theorem lookup_nearest {events : List (ScopeEvent Name)}
    (hrun : EventRun.run (ScopeEvent.step info) events [] = some emitters) (name : Name)
    (hasMemory : Bool) :
    let scopes := scopesFrom (openScopes events)
    let found := (lookup info name hasMemory emitters).map Prod.fst
    (∀ inner scope outer own, scopes = inner ++ scope :: outer →
      (∀ passed ∈ inner, passed.location info name = none) → scope.location info name = some own →
        environments inner < ENVCOORD_HOPS_LIMIT ∧
        ∃ loc, found = some loc ∧ loc = own.addHops (.ofNat (environments inner)) ∧
          (boundNames scope.bindings name = some own ∨
              (∀ hops ∈ own.hops, hops + environments inner < ENVCOORD_HOPS_LIMIT) →
            loc.hops = own.hops.map (· + environments inner))) ∧
    (scopes ≠ [] → (∀ scope ∈ scopes, scope.location info name = none) →
      found = searchInEnclosingScope name info.enclosingScope (.ofNat (environments scopes)) ∧
      ((∀ scope ∈ scopes, scope.checked) →
        environments scopes + Scope.environmentChainLength info.enclosingScope < ENVCOORD_HOPS_LIMIT ∧
        ∀ loc, found = some loc → ∀ hops ∈ loc.hops, ∃ passed rest, info.enclosingScope = passed ++ rest ∧
          hops = environments scopes + Scope.environmentChainLength passed)) := by
  intro scopes found
  have hsound := SoundEmitters.nil.run hrun
  have hchain : Sound info (scopesFrom emitters) scopes := hsound.chain
  have hlimit : scopes ≠ [] → environmentChainLength info (scopesFrom emitters) < ENVCOORD_HOPS_LIMIT := by
    intro hne
    cases hchain : scopesFrom emitters with
    | nil => exact absurd (hchain ▸ hsound.chain).eq_nil hne
    | cons scope rest => exact scope.environmentChainLength.toNat_lt
  have hfound : scopes ≠ [] → found = resolve info name scopes := by
    intro hne
    obtain ⟨hnone, hnil | hresolve⟩ | ⟨loc, next, hsome, hresolve, -⟩ := hsound.lookup_eq name hasMemory
    · exact absurd hnil hne
    · exact (congrArg (Option.map Prod.fst) hnone).trans hresolve.symm
    · exact (congrArg (Option.map Prod.fst) hsome).trans hresolve.symm
  constructor
  · intro inner scope outer own hscopes hinner hown
    have hne : scopes ≠ [] := by simp [hscopes]
    obtain ⟨enclosing, -, hle⟩ := (hscopes ▸ hchain).environments_le (.inl (List.cons_ne_nil scope outer))
    have hlt : environments inner < ENVCOORD_HOPS_LIMIT := by have := hlimit hne; omega
    refine ⟨hlt, _, ?_, rfl, fun h => NameLocation.hops_addHops ?_⟩
    · rw [hfound hne, hscopes, resolve_append hinner, resolve, hown, Option.map_some]
    · obtain hbound | hfits := h
      · intro hops hmem
        rw [hops_boundNames hbound hops hmem, zero_add]
        exact hlt
      · exact hfits
  · intro hne hnone
    have hsearch : found = searchInEnclosingScope name info.enclosingScope (.ofNat (environments scopes)) := by
      rw [hfound hne, ← List.append_nil scopes, resolve_append hnone, resolve, ← searchInEnclosingScope_add,
        UInt8.zero_add, List.append_nil]
    refine ⟨hsearch, fun hchecked => ?_⟩
    obtain ⟨enclosing, hnil, hle⟩ := (scopes.append_nil.symm ▸ hchain).environments_le (.inr hchecked)
    cases hnil
    have hlt : environments scopes + Scope.environmentChainLength info.enclosingScope < ENVCOORD_HOPS_LIMIT :=
      hle.trans_lt (hlimit hne)
    have hcount : (UInt8.ofNat (environments scopes)).toNat = environments scopes :=
      UInt8.toNat_ofNat_of_lt' ((Nat.le_add_right _ _).trans_lt hlt)
    refine ⟨hlt, fun loc hloc hops hmem => ?_⟩
    rw [← hcount] at hlt ⊢
    exact hops_of_searchInEnclosingScope (hsearch.symm.trans hloc) hlt hmem

/-- A name of a function, as seen from a block with an environment in a nested function without one. -/
theorem lookup_nearest_nested :
    let coordinate : ℕ × BindingKind × BindingLocation := (1, .let_, .environment 2)
    let events : List (ScopeEvent ℕ) := [.openEmitter, .enter ⟨[coordinate], none, true, true⟩, .openEmitter,
      .enter ⟨[], none, false, true⟩, .enter ⟨[], none, true, true⟩]
    ∃ emitters, EventRun.run (ScopeEvent.step ⟨[], 0⟩) events [] = some emitters ∧
      (lookup ⟨[], 0⟩ 1 true emitters).map Prod.fst = some (.environmentCoordinate .let_ 1 2) := by
  intro coordinate events
  obtain ⟨emitters, hrun⟩ : ∃ emitters, EventRun.run (ScopeEvent.step ⟨[], 0⟩) events [] = some emitters := ⟨_, rfl⟩
  obtain ⟨-, loc, hfound, rfl, -⟩ := (lookup_nearest hrun 1 true).1
    [⟨[], none, true, true⟩, ⟨[], none, false, true⟩] ⟨[coordinate], none, true, true⟩ []
    (.environmentCoordinate .let_ 0 2) rfl (by simp [EnteredScope.location, boundNames]) rfl
  exact ⟨emitters, hrun, hfound⟩

end SpiderMonkey.Frontend.NameLookup
