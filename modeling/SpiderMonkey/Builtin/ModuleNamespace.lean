import SpiderMonkey.Builtin.ModuleRecord
import SpiderMonkey.Builtin.ResolveExport

/-!
# Exported names and module namespaces

`ModuleGetExportedNames` collects the names that a module and its star exports have, and
`GetModuleNamespace` keeps those that resolve to a binding.  A binding that is itself a namespace
makes it create that one too; the namespace of a module is recorded before its bindings are made,
which ends the recursion.

A namespace lists the names whose resolution is a binding (`NamespacesCorrect`), in every state that
calls of `GetModuleNamespace` lead to.
-/

namespace SpiderMonkey

open Relation List Function

/-- A module namespace object: the sorted names, and the bindings that have been added. -/
structure ModuleNamespace (M : Type) where
  exports : List JSString
  bindings : List (JSString × ResolvedBinding M)
  deriving DecidableEq

abbrev Namespaces (M : Type) := M → Option (ModuleNamespace M)

namespace ExportGraph

variable {M : Type} [DecidableEq M] (g : ExportGraph M)

/-! ## The code -/

/-- The names of a star export that are added to the exported names. -/
def addStarNames : List JSString → List JSString → List JSString
  | exportedNames, [] => exportedNames
  | exportedNames, n :: starNames =>
    if n ≠ defaultName ∧ n ∉ exportedNames then addStarNames (exportedNames ++ [n]) starNames
    else addStarNames exportedNames starNames

/-- Step 9 of `ModuleGetExportedNames`: the star exports that are left. -/
def addStarExports (getExportedNames : M → List M → Option (List JSString × List M)) :
    List M → List JSString → List M → Option (List JSString × List M)
  | [], exportedNames, exportStarSet => some (exportedNames, exportStarSet)
  | requestedModule :: rest, exportedNames, exportStarSet => do
    let (starNames, exportStarSet) ← getExportedNames requestedModule exportStarSet
    addStarExports getExportedNames rest (addStarNames exportedNames starNames) exportStarSet

/-- `ModuleGetExportedNames`, with the export star set as the state. -/
def getExportedNames : ℕ → M → List M → Option (List JSString × List M)
  | 0, _, _ => none
  | fuel + 1, module, exportStarSet =>
    if module ∈ exportStarSet then some ([], exportStarSet)
    else
      addStarExports (getExportedNames fuel) (g.starModules module) (g.ownNames module)
        (exportStarSet ++ [module])

/-- `ModuleGetExportedNames` with an empty export star set. -/
def ModuleGetExportedNames (fuel : ℕ) (module : M) : Option (List JSString) :=
  Prod.fst <$> g.getExportedNames fuel module []

/-- The names of a list that resolve to a binding. -/
def unambiguousNames (resolve : JSString → Option (Resolution M)) : List JSString → Option (List JSString)
  | [] => some []
  | name :: names => do
    let resolution ← resolve name
    let rest ← unambiguousNames resolve names
    match resolution with
    | .binding _ => return name :: rest
    | _ => return rest

variable (namespaces : Namespaces M)

def addModuleNamespaceBinding (module : M) (name : JSString) (binding : ResolvedBinding M) : Namespaces M :=
  Function.update namespaces module ((namespaces module).map fun ns =>
    { ns with bindings := ns.bindings ++ [(name, binding)] })

/-- A binding of a namespace needs that namespace. -/
def ensureNamespace (getModuleNamespace : M → Namespaces M → Option (Namespaces M))
    (binding : ResolvedBinding M) (namespaces : Namespaces M) : Option (Namespaces M) :=
  if binding.bindingName = namespaceName then getModuleNamespace binding.module namespaces
  else some namespaces

/-- The loop of `ModuleNamespaceCreate` over the names that are left.  A name that does not resolve
to a binding fails the assertion, which leaves no result. -/
def addNamespaceBindings (resolve : JSString → Option (Resolution M))
    (getModuleNamespace : M → Namespaces M → Option (Namespaces M)) (module : M) :
    List JSString → Namespaces M → Option (Namespaces M)
  | [], namespaces => some namespaces
  | name :: rest, namespaces => do
    match ← resolve name with
    | .binding binding =>
      let namespaces ← ensureNamespace getModuleNamespace binding namespaces
      addNamespaceBindings resolve getModuleNamespace module rest
        (addModuleNamespaceBinding namespaces module name binding)
    | _ => none

/-- `GetModuleNamespace`: the namespace slots after the call, in which the module has its namespace.
A module that is not linked fails the assertion. -/
def getModuleNamespace (status : M → ModuleStatus) : ℕ → M → Namespaces M → Option (Namespaces M)
  | 0, _, _ => none
  | fuel + 1, module, namespaces =>
    if status module = .unlinked then none
    else
      match namespaces module with
      | some _ => some namespaces
      | none => do
        let exportedNames ← g.ModuleGetExportedNames fuel module
        let names ← unambiguousNames (g.ModuleResolveExport fuel module) exportedNames
        let exports := names.mergeSort
        -- `NewModuleNamespace` sets the namespace slot.
        addNamespaceBindings (g.ModuleResolveExport fuel module)
          (getModuleNamespace status fuel) module exports
          (Function.update namespaces module (some ⟨exports, []⟩))

/-- Calls of `GetModuleNamespace` one after another, from modules without namespaces. -/
def getModuleNamespaces (status : M → ModuleStatus) (fuel : ℕ) : List M → Option (Namespaces M)
  | [] => some fun _ => none
  | module :: modules => do
    let namespaces ← getModuleNamespaces status fuel modules
    g.getModuleNamespace status fuel module namespaces

/-! ## Exported names -/

omit [DecidableEq M]

/-- A module that the star exports of another one refer to. -/
def StarExports (module imported : M) : Prop := imported ∈ g.starModules module

lemma mem_addStarNames {n : JSString} : ∀ (starNames exportedNames : List JSString),
    n ∈ addStarNames exportedNames starNames ↔ n ∈ exportedNames ∨ n ≠ defaultName ∧ n ∈ starNames := by
  intro starNames
  induction starNames with
  | nil =>
    intro exportedNames
    simp [addStarNames]
  | cons n' starNames ih =>
    intro exportedNames
    rw [addStarNames, mem_cons]
    split
    next h =>
      rw [ih, mem_append, mem_singleton]
      constructor
      · rintro ((hn | rfl) | hn)
        · exact .inl hn
        · exact .inr ⟨h.1, .inl rfl⟩
        · exact .inr ⟨hn.1, .inr hn.2⟩
      · rintro (hn | ⟨hd, rfl | hn⟩)
        · exact .inl (.inl hn)
        · simp
        · exact .inr ⟨hd, hn⟩
    next h =>
      rw [ih]
      constructor
      · exact fun hn => hn.imp_right fun hn => ⟨hn.1, .inr hn.2⟩
      · rintro (hn | ⟨hd, rfl | hn⟩)
        · exact .inl hn
        · exact .inl (not_not.mp fun hm => h ⟨hd, hm⟩)
        · exact .inr ⟨hd, hn⟩

lemma nodup_addStarNames : ∀ (starNames exportedNames : List JSString), exportedNames.Nodup →
    (addStarNames exportedNames starNames).Nodup := by
  intro starNames
  induction starNames with
  | nil => exact fun _ h => h
  | cons n starNames ih =>
    intro exportedNames h
    rw [addStarNames]
    split
    next hn =>
      refine ih _ (nodup_append.mpr ⟨h, nodup_singleton n, ?_⟩)
      rintro x hx _ hy rfl
      rw [mem_singleton.mp hy] at hx
      exact hn.2 hx
    next => exact ih _ h

def modules (exportStarSet : List M) : Set M := {m | m ∈ exportStarSet}

lemma modules_append (exportStarSet : List M) (m : M) :
    modules (exportStarSet ++ [m]) = insert m (modules exportStarSet) := by
  ext m'
  simpa [modules] using or_comm

/-- The own names of the modules that are searched from `S` to `S'`. -/
def foundNames (S S' : List M) : Set JSString :=
  Found (fun m => {n | n ∈ g.ownNames m}) (modules S) (modules S')

/-- The names that a search for `roots` adds to `own`, where it takes the export star set from `S` to
`S'`.  The name `default` is not exported by star exports. -/
structure ExportsNames (own : List JSString) (roots : Set M) (S S' : List M) (names : List JSString) : Prop where
  explores : Explores g.StarExports roots (modules S) (modules S')
  mem_iff : ∀ n, n ≠ defaultName → (n ∈ names ↔ n ∈ own ∨ n ∈ g.foundNames S S')
  nodup : names.Nodup

variable {g}

lemma addStarExports_spec {getNames : M → List M → Option (List JSString × List M)} {S : List M} {own : List JSString} :
    ∀ (rest : List M) {roots : Set M} {names : List JSString} {S' : List M},
      (∀ m ∈ rest, ∀ S', modules S ⊆ modules S' → ∃ names S'',
        getNames m S' = some (names, S'') ∧ g.ExportsNames [] {m} S' S'' names) →
      g.ExportsNames own roots S S' names →
      ∃ names' S'', addStarExports getNames rest names S' = some (names', S'') ∧
        g.ExportsNames own (roots ∪ {m | m ∈ rest}) S S'' names' ∧
        (defaultName ∈ names' ↔ defaultName ∈ names) := by
  intro rest
  induction rest with
  | nil =>
    intro roots names S' _ h
    refine ⟨names, S', rfl, ?_, Iff.rfl⟩
    have hroots : roots ∪ {m : M | m ∈ ([] : List M)} = roots := by
      rw [Set.union_eq_left]
      intro m hm
      cases hm
    rw [hroots]
    exact h
  | cons m rest ih =>
    intro roots names S' hget h
    obtain ⟨starNames, S'', heq, hstar⟩ := hget m mem_cons_self S' h.explores.subset
    have hnext : g.ExportsNames own (roots ∪ {m}) S S'' (addStarNames names starNames) := by
      refine ⟨h.explores.append hstar.explores, fun n hn => ?_, nodup_addStarNames _ _ h.nodup⟩
      unfold foundNames
      rw [mem_addStarNames, Found.append h.explores.subset hstar.explores.subset, Set.mem_union,
        h.mem_iff n hn, hstar.mem_iff n hn, or_assoc]
      refine or_congr_right (or_congr_right ⟨fun h => h.2.resolve_left List.not_mem_nil, fun h => ?_⟩)
      exact ⟨hn, .inr h⟩
    obtain ⟨names', S₃, heq', h', hdefault⟩ := ih (fun m' hm => hget m' (mem_cons_of_mem _ hm)) hnext
    refine ⟨names', S₃, ?_, ?_, ?_⟩
    · rw [addStarExports, heq]
      exact heq'
    · have hroots : roots ∪ {m' | m' ∈ m :: rest} = roots ∪ {m} ∪ {m' | m' ∈ rest} := by
        ext m'
        simp only [Set.mem_union, Set.mem_ofPred_eq, mem_cons, Set.mem_singleton_iff]
        exact or_assoc.symm
      rw [hroots]
      exact h'
    · simp [hdefault, mem_addStarNames]

lemma getExportedNames_spec [DecidableEq M] [Finite M] (hg : g.UniqueExportNames) :
    ∀ (fuel : ℕ) (module : M) (S : List M), remaining Set.univ (modules S) < fuel →
      ∃ names S', g.getExportedNames fuel module S = some (names, S') ∧ g.ExportsNames [] {module} S S' names ∧
        (defaultName ∈ names ↔ module ∉ S ∧ defaultName ∈ g.ownNames module) := by
  intro fuel
  induction fuel with
  | zero => exact fun _ _ h => absurd h (Nat.not_lt_zero _)
  | succ fuel ih =>
    intro module S hfuel
    rw [getExportedNames]
    by_cases hS : module ∈ S
    · rw [if_pos hS]
      refine ⟨[], S, rfl, ⟨.visited hS, fun n _ => ?_, nodup_nil⟩, ?_⟩
      · unfold foundNames
        simp
      · exact ⟨nofun, fun h => absurd hS h.1⟩
    rw [if_neg hS]
    have hleft : remaining Set.univ (modules (S ++ [module])) < fuel := by
      rw [modules_append]
      have := remaining_insert_lt Set.finite_univ (Set.mem_univ module) (S := modules S) hS
      omega
    have hstart : g.ExportsNames (g.ownNames module) ∅ (S ++ [module]) (S ++ [module])
        (g.ownNames module) := by
      refine ⟨.nil, fun n _ => ?_, hg module⟩
      unfold foundNames
      simp
    obtain ⟨names, S', heq, hnames, hdefault⟩ := addStarExports_spec (g.starModules module)
      (fun m _ S' hsub => by
        obtain ⟨names, S'', heq, hnames, -⟩ := ih m S' ((remaining_le Set.finite_univ hsub).trans_lt hleft)
        exact ⟨names, S'', heq, hnames⟩) hstart
    have hexplores := hnames.explores
    rw [Set.empty_union, modules_append] at hexplores
    refine ⟨names, S', heq, ⟨.node hexplores, fun n hn => ?_, hnames.nodup⟩, ?_⟩
    · -- The own names are those of the module alone.
      rw [hnames.mem_iff n hn]
      unfold foundNames
      simp [Found.node (S := modules S) hS hexplores.subset, modules_append]
    · rw [hdefault]
      exact (and_iff_right hS).symm

/-- With enough fuel the exported names are the own names and, `default` apart, those of the modules
that star exports lead to. -/
lemma ModuleGetExportedNames_spec [DecidableEq M] [Finite M] (hg : g.UniqueExportNames) {fuel : ℕ}
    (hfuel : Nat.card M < fuel) (module : M) : ∃ names,
      g.ModuleGetExportedNames fuel module = some names ∧ names.Nodup ∧
      ∀ n, n ∈ names ↔ n ∈ g.ownNames module ∨ n ≠ defaultName ∧
        ∃ m, ReflTransGen g.StarExports module m ∧ n ∈ g.ownNames m := by
  have hleft : remaining Set.univ (modules ([] : List M)) < fuel := by
    have := remaining_le_ncard Set.finite_univ (S := modules ([] : List M))
    rw [Set.ncard_univ] at this
    omega
  obtain ⟨names, S', heq, hnames, hdefault⟩ := getExportedNames_spec hg fuel module [] hleft
  refine ⟨names, ?_, hnames.nodup, fun n => ?_⟩
  · rw [ModuleGetExportedNames, heq]
    rfl
  have hexplores := hnames.explores
  have hnil : modules ([] : List M) = ∅ := Set.eq_empty_of_forall_notMem fun _ => not_mem_nil
  rw [hnil] at hexplores
  by_cases hn : n = defaultName
  · simp [hn, hdefault]
  · rw [hnames.mem_iff n hn, or_iff_right not_mem_nil, foundNames, hnil, hexplores.eq_reachable]
    constructor
    · rintro ⟨m, hm, -, hown⟩
      exact .inr ⟨hn, m, hm, hown⟩
    · rintro (hown | ⟨-, m, hm, hown⟩)
      · exact ⟨module, .refl, Set.notMem_empty _, hown⟩
      · exact ⟨m, hm, Set.notMem_empty _, hown⟩

lemma exported_of_terminal {r r' : ExportRequest M} {b : ResolvedBinding M}
    (hreach : ReflTransGen g.Follows r r') (hb : g.Terminal r' b) :
    r.2 ∈ g.ownNames r.1 ∨ r.2 ≠ defaultName ∧ ∃ m, ReflTransGen g.StarExports r.1 m ∧ r.2 ∈ g.ownNames m := by
  induction hreach using ReflTransGen.head_induction_on with
  | refl =>
    left
    cases hb with
    | localExport h => exact mem_append_left _ (List.mem_map_of_mem h)
    | namespaceExport h => exact mem_append_right _ (List.mem_map_of_mem h)
  | head hF _ ih =>
    cases hF with
    | indirect h => exact .inl (mem_append_right _ (List.mem_map_of_mem h))
    | star hname _ h =>
      right
      obtain hown | ⟨-, m, hm, hown⟩ := ih
      · exact ⟨hname, _, .single h, hown⟩
      · exact ⟨hname, m, .head h hm, hown⟩

/-! ## Namespaces -/

variable (g)

/-- A module that the export entries of another one refer to. -/
inductive Requests : M → M → Prop
  | indirect {module : M} {e : IndirectExportEntry} (h : e ∈ g.indirectExportEntries module) :
      Requests module (g.HostResolveImportedModule module e.moduleRequest)
  | star {module imported : M} (h : imported ∈ g.starModules module) : Requests module imported

/-- A namespace lists the names whose resolution is a binding, and binds them to it. -/
structure NamespaceCorrect (module : M) (ns : ModuleNamespace M) : Prop where
  nodup : ns.exports.Nodup
  mem_exports : ∀ n, n ∈ ns.exports ↔ ∃ b, g.terminals (module, n) = {b}
  mem_bindings : ∀ p ∈ ns.bindings, g.terminals (module, p.1) = {p.2}

def NamespacesCorrect : Prop :=
  ∀ module ns, namespaces module = some ns → g.NamespaceCorrect module ns

variable {g}

/-- The modules that have a namespace. -/
def withNamespace : Set M := {m | (namespaces m).isSome}

lemma requests_of_follows {r r' : ExportRequest M} (h : g.Follows r r') : g.Requests r.1 r'.1 := by
  cases h with
  | indirect h => exact .indirect h
  | star _ _ h => exact .star h

lemma reachable_of_mem_terminals {r : ExportRequest M} {b : ResolvedBinding M}
    (h : b ∈ g.terminals r) : ReflTransGen g.Requests r.1 b.module := by
  obtain ⟨r', hr, hb⟩ := h
  have hr' : ReflTransGen g.Requests r.1 r'.1 := hr.lift Prod.fst fun _ _ h => requests_of_follows h
  cases hb with
  | localExport => exact hr'
  | namespaceExport h => exact hr'.tail (.indirect h)

lemma unambiguousNames_spec {resolve : JSString → Option (Resolution M)} {module : M}
    (hresolve : ∀ n, ∃ r, resolve n = some r ∧ r.Summarizes (g.terminals (module, n))) :
    ∀ names : List JSString, ∃ names', unambiguousNames resolve names = some names' ∧ List.Sublist names' names ∧
      ∀ n, n ∈ names' ↔ n ∈ names ∧ ∃ b, g.terminals (module, n) = {b} := by
  intro names
  induction names with
  | nil => exact ⟨[], rfl, .slnil, fun n => ⟨nofun, And.left⟩⟩
  | cons name names ih =>
    obtain ⟨names', heq, hsub, hmem⟩ := ih
    obtain ⟨r, hr, hsum⟩ := hresolve name
    have hskip : (∀ b, r ≠ .binding b) → ∀ n, n ∈ names' ↔ n ∈ name :: names ∧ ∃ b, g.terminals (module, n) = {b} := by
      intro hne n
      rw [hmem, mem_cons]
      constructor
      · exact fun h => ⟨.inr h.1, h.2⟩
      · rintro ⟨rfl | hn, b, hb⟩
        · exact absurd ((hsum.binding_iff b).mpr hb) (hne b)
        · exact ⟨hn, b, hb⟩
    rw [unambiguousNames, hr, Option.bind_eq_bind, Option.bind_some, heq, Option.bind_eq_bind, Option.bind_some]
    cases r with
    | null => exact ⟨names', rfl, hsub.cons _, hskip fun _ h => by cases h⟩
    | ambiguous => exact ⟨names', rfl, hsub.cons _, hskip fun _ h => by cases h⟩
    | binding b =>
      refine ⟨name :: names', rfl, hsub.cons_cons _, fun n => ?_⟩
      have hb := (hsum.binding_iff b).mp rfl
      rw [mem_cons, mem_cons, hmem]
      constructor
      · rintro (rfl | h)
        · simp [hb]
        · exact ⟨.inr h.1, h.2⟩
      · rintro ⟨rfl | hn, h⟩
        · exact .inl rfl
        · exact .inr ⟨hn, h⟩

lemma withNamespace_addBinding [DecidableEq M] (namespaces : Namespaces M) (module : M)
    (name : JSString) (b : ResolvedBinding M) :
    withNamespace (addModuleNamespaceBinding namespaces module name b) = withNamespace namespaces := by
  ext m
  simp only [withNamespace, addModuleNamespaceBinding, Set.mem_ofPred_eq]
  by_cases h : m = module
  · simp [h]
  · rw [update_of_ne h]

lemma NamespacesCorrect.addBinding [DecidableEq M] {namespaces : Namespaces M} {module : M}
    {name : JSString} {b : ResolvedBinding M} (h : g.NamespacesCorrect namespaces)
    (hb : g.terminals (module, name) = {b}) :
    g.NamespacesCorrect (addModuleNamespaceBinding namespaces module name b) := by
  intro m ns hns
  unfold addModuleNamespaceBinding at hns
  by_cases hm : m = module
  · subst hm
    rw [update_self, Option.map_eq_some_iff] at hns
    obtain ⟨ns', hns', rfl⟩ := hns
    obtain ⟨hnodup, hexports, hbindings⟩ := h m ns' hns'
    refine ⟨hnodup, hexports, fun p hp => ?_⟩
    obtain hp | hp := mem_append.mp hp
    · exact hbindings p hp
    · rw [mem_singleton.mp hp]
      exact hb
  · rw [update_of_ne hm] at hns
    exact h m ns hns

/-- What a call leaves of the namespace slots: correct ones, none of which is lost. -/
structure Creates (g : ExportGraph M) (namespaces namespaces' : Namespaces M) : Prop where
  correct : g.NamespacesCorrect namespaces'
  subset : withNamespace namespaces ⊆ withNamespace namespaces'

lemma addNamespaceBindings_spec [DecidableEq M] {module : M} {resolve : JSString → Option (Resolution M)}
    {getNamespace : M → Namespaces M → Option (Namespaces M)} {base : Namespaces M}
    (hresolve : ∀ n, ∃ r, resolve n = some r ∧ r.Summarizes (g.terminals (module, n)))
    (hget : ∀ m, ReflTransGen g.Requests module m → ∀ namespaces, g.Creates base namespaces →
      ∃ namespaces', getNamespace m namespaces = some namespaces' ∧ g.Creates namespaces namespaces') :
    ∀ (names : List JSString) (namespaces : Namespaces M),
      (∀ n ∈ names, ∃ b, g.terminals (module, n) = {b}) → g.Creates base namespaces →
      ∃ namespaces', addNamespaceBindings resolve getNamespace module names namespaces =
        some namespaces' ∧ g.Creates namespaces namespaces' := by
  intro names
  induction names with
  | nil => exact fun namespaces _ h => ⟨namespaces, rfl, h.correct, subset_rfl⟩
  | cons name names ih =>
    intro namespaces hnames h
    obtain ⟨b, hb⟩ := hnames name mem_cons_self
    obtain ⟨r, hr, hsum⟩ := hresolve name
    obtain rfl : r = .binding b := (hsum.binding_iff b).mpr hb
    have hreach : ReflTransGen g.Requests module b.module :=
      reachable_of_mem_terminals (r := (module, name)) (hb ▸ Set.mem_singleton b)
    -- The namespace of a namespace binding is created first.
    obtain ⟨namespaces₁, h₁, hcreates₁⟩ : ∃ namespaces₁, ensureNamespace getNamespace b namespaces = some namespaces₁ ∧
          g.Creates namespaces namespaces₁ := by
      unfold ensureNamespace
      split
      · exact hget b.module hreach namespaces h
      · exact ⟨namespaces, rfl, h.correct, subset_rfl⟩
    have hadd := hcreates₁.correct.addBinding hb
    have hbase : g.Creates base (addModuleNamespaceBinding namespaces₁ module name b) := by
      refine ⟨hadd, ?_⟩
      rw [withNamespace_addBinding]
      exact h.subset.trans hcreates₁.subset
    obtain ⟨namespaces', h', hcreates'⟩ := ih _ (fun n hn => hnames n (mem_cons_of_mem _ hn)) hbase
    have hsubset := hcreates'.subset
    rw [withNamespace_addBinding] at hsubset
    refine ⟨namespaces', ?_, hcreates'.correct, hcreates₁.subset.trans hsubset⟩
    simp only [addNamespaceBindings, hr, h₁, Option.bind_eq_bind, Option.bind_some]
    exact h'

/-- Fuel that suffices for a call of `GetModuleNamespace`. -/
noncomputable def namespaceFuel (g : ExportGraph M) : ℕ :=
  Max.max g.resolveFuel (Nat.card M + 1) + Nat.card M + 1

lemma getModuleNamespace_spec [DecidableEq M] [Finite M] (hg : g.UniqueExportNames)
    {status : M → ModuleStatus} : ∀ (fuel : ℕ) (module : M) (namespaces : Namespaces M),
      (∀ m, ReflTransGen g.Requests module m → status m ≠ .unlinked) →
      Max.max g.resolveFuel (Nat.card M + 1) + remaining Set.univ (withNamespace namespaces) < fuel →
      g.NamespacesCorrect namespaces →
      ∃ namespaces', g.getModuleNamespace status fuel module namespaces = some namespaces' ∧
        g.Creates namespaces namespaces' ∧ module ∈ withNamespace namespaces' := by
  intro fuel
  induction fuel with
  | zero => exact fun _ _ _ h => absurd h (Nat.not_lt_zero _)
  | succ fuel ih =>
    intro module namespaces hstatus hfuel hcorrect
    rw [getModuleNamespace, if_neg (hstatus module .refl)]
    cases hns : namespaces module with
    | some ns =>
      refine ⟨namespaces, rfl, ⟨hcorrect, subset_rfl⟩, ?_⟩
      simp [withNamespace, hns]
    | none =>
    obtain ⟨exportedNames, hexported, hnodup, hmem⟩ :=
      ModuleGetExportedNames_spec hg (show Nat.card M < fuel by omega) module
    have hresolve : ∀ n, ∃ r, g.ModuleResolveExport fuel module n = some r ∧ r.Summarizes (g.terminals (module, n)) :=
      fun n => ModuleResolveExport_spec hg (by omega) module n
    obtain ⟨names, hnames, hsub, hmem'⟩ := unambiguousNames_spec hresolve exportedNames
    -- Every name that resolves to a binding is exported.
    have hall : ∀ n, n ∈ names ↔ ∃ b, g.terminals (module, n) = {b} := by
      intro n
      rw [hmem']
      refine ⟨And.right, fun h => ⟨(hmem n).mpr ?_, h⟩⟩
      obtain ⟨b, hb⟩ := h
      obtain ⟨r, hr, hterm⟩ : b ∈ g.terminals (module, n) := hb ▸ Set.mem_singleton b
      exact exported_of_terminal hr hterm
    have hperm : names.mergeSort.Perm names := List.mergeSort_perm names _
    have hsorted : ∀ n, n ∈ names.mergeSort ↔ ∃ b, g.terminals (module, n) = {b} :=
      fun n => hperm.mem_iff.trans (hall n)
    set namespaces₁ := Function.update namespaces module (some ⟨names.mergeSort, []⟩) with hset
    have hcorrect₁ : g.NamespacesCorrect namespaces₁ := by
      intro m ns hns'
      by_cases hm : m = module
      · subst hm
        rw [hset, update_self] at hns'
        cases hns'
        exact ⟨hperm.nodup_iff.mpr (hnodup.sublist hsub), hsorted, fun p hp => absurd hp not_mem_nil⟩
      · rw [hset, update_of_ne hm] at hns'
        exact hcorrect m ns hns'
    have hwith : withNamespace namespaces₁ = insert module (withNamespace namespaces) := by
      ext m
      simp only [withNamespace, Set.mem_ofPred_eq, Set.mem_insert_iff, hset]
      by_cases hm : m = module
      · simp [hm]
      · rw [update_of_ne hm, or_iff_right hm]
    have hleft : remaining Set.univ (withNamespace namespaces₁) < remaining Set.univ (withNamespace namespaces) := by
      rw [hwith]
      refine remaining_insert_lt Set.finite_univ (Set.mem_univ module) ?_
      simp [withNamespace, hns]
    obtain ⟨namespaces', h', hcreates⟩ := addNamespaceBindings_spec hresolve
      (fun m hm ns hcreates => by
        have hle := remaining_le Set.finite_univ hcreates.subset
        obtain ⟨ns', heq, hcreates', -⟩ := ih m ns (fun m' hm' => hstatus m' (hm.trans hm'))
          (by omega) hcreates.correct
        exact ⟨ns', heq, hcreates'⟩) names.mergeSort namespaces₁ (fun n hn => (hsorted n).mp hn)
      ⟨hcorrect₁, subset_rfl⟩
    have hsubset := hcreates.subset
    rw [hwith] at hsubset
    refine ⟨namespaces', ?_, ⟨hcreates.correct, (Set.subset_insert _ _).trans hsubset⟩, hsubset (Set.mem_insert _ _)⟩
    simpa [hexported, hnames] using h'

lemma getModuleNamespaces_spec [DecidableEq M] [Finite M] (hg : g.UniqueExportNames)
    {status : M → ModuleStatus} {fuel : ℕ} (hfuel : g.namespaceFuel ≤ fuel) :
    ∀ roots : List M, (∀ m ∈ roots, ∀ m', ReflTransGen g.Requests m m' → status m' ≠ .unlinked) →
      ∃ namespaces, g.getModuleNamespaces status fuel roots = some namespaces ∧
        g.NamespacesCorrect namespaces ∧ ∀ m ∈ roots, m ∈ withNamespace namespaces := by
  intro roots
  induction roots with
  | nil =>
    intro _
    refine ⟨_, rfl, fun m ns h => ?_, fun m hm => absurd hm not_mem_nil⟩
    cases h
  | cons module roots ih =>
    intro hstatus
    obtain ⟨namespaces, heq, hcorrect, hroots⟩ := ih fun m hm => hstatus m (mem_cons_of_mem _ hm)
    have hle := remaining_le_ncard Set.finite_univ (S := withNamespace namespaces)
    rw [Set.ncard_univ] at hle
    unfold namespaceFuel at hfuel
    obtain ⟨namespaces', heq', hcreates, hmem⟩ := getModuleNamespace_spec hg fuel module namespaces
      (hstatus module mem_cons_self) (by omega) hcorrect
    refine ⟨namespaces', ?_, hcreates.correct, ?_⟩
    · rw [getModuleNamespaces, heq]
      exact heq'
    · intro m hm
      obtain rfl | hm := mem_cons.mp hm
      · exact hmem
      · exact hcreates.subset (hroots m hm)

/-! ## Order of the entries -/

/-- Two graphs that differ only in the order of star export entries. -/
structure SameUpToStarOrder (g g' : ExportGraph M) : Prop where
  localExportEntries : g'.localExportEntries = g.localExportEntries
  indirectExportEntries : g'.indirectExportEntries = g.indirectExportEntries
  host : g'.HostResolveImportedModule = g.HostResolveImportedModule
  starExportEntries : ∀ m, (g'.starExportEntries m).Perm (g.starExportEntries m)

namespace SameUpToStarOrder

variable {g' : ExportGraph M} (h : g.SameUpToStarOrder g')

include h

lemma ownNames_eq : g'.ownNames = g.ownNames := by
  funext m
  rw [ownNames, ownNames, h.localExportEntries, h.indirectExportEntries]

lemma mem_starModules (m m' : M) : m' ∈ g'.starModules m ↔ m' ∈ g.starModules m := by
  rw [starModules, starModules, h.host]
  exact ((h.starExportEntries m).map _).mem_iff

lemma follows_congr (r r' : ExportRequest M) : g'.Follows r r' ↔ g.Follows r r' := by
  constructor
  · intro hF
    cases hF with
    | indirect he hstar =>
      rw [h.host]
      exact .indirect (h.indirectExportEntries ▸ he) hstar
    | star hname hown hm =>
      exact .star hname (h.ownNames_eq ▸ hown) ((h.mem_starModules _ _).mp hm)
  · intro hF
    cases hF with
    | indirect he hstar =>
      rw [← h.host]
      exact .indirect (h.indirectExportEntries.symm ▸ he) hstar
    | star hname hown hm =>
      exact .star hname (h.ownNames_eq.symm ▸ hown) ((h.mem_starModules _ _).mpr hm)

lemma terminal_iff (r : ExportRequest M) (b : ResolvedBinding M) : g'.Terminal r b ↔ g.Terminal r b := by
  constructor
  · intro ht
    cases ht with
    | localExport he => exact .localExport (h.localExportEntries ▸ he)
    | namespaceExport he hstar =>
      rw [h.host]
      exact .namespaceExport (h.indirectExportEntries ▸ he) hstar
  · intro ht
    cases ht with
    | localExport he => exact .localExport (h.localExportEntries.symm ▸ he)
    | namespaceExport he hstar =>
      rw [← h.host]
      exact .namespaceExport (h.indirectExportEntries.symm ▸ he) hstar

lemma terminals_eq : g'.terminals = g.terminals := by
  have hF : g'.Follows = g.Follows := by
    funext r r'
    exact propext (h.follows_congr r r')
  funext r
  ext b
  simp [terminals, hF, h.terminal_iff]

end SameUpToStarOrder

/-! ## Resolution by terminal bindings -/

/-- **Export resolution is determined by the terminal bindings.**  With enough fuel every request is
resolved, independently of the order of star export entries, and every sequence of calls of
`GetModuleNamespace` makes namespaces of exactly the names that resolve to bindings. -/
theorem resolution_by_terminals [DecidableEq M] [Finite M] (hg : g.UniqueExportNames) :
    ∃ n, ∀ fuel ≥ n, (∀ module exportName, ∃ r, g.ModuleResolveExport fuel module exportName = some r ∧
        (r = .null ↔ g.terminals (module, exportName) = ∅) ∧
        (∀ b, r = .binding b ↔ g.terminals (module, exportName) = {b}) ∧
        (r = .ambiguous ↔ ∃ b ∈ g.terminals (module, exportName), ∃ b' ∈ g.terminals (module, exportName), b ≠ b')) ∧
      (∀ g', g.SameUpToStarOrder g' → ∀ module exportName, g'.ModuleResolveExport fuel module exportName =
          g.ModuleResolveExport fuel module exportName) ∧
      ∀ (status : M → ModuleStatus) (roots : List M),
        (∀ m ∈ roots, ∀ m', ReflTransGen g.Requests m m' → status m' ≠ .unlinked) →
        ∃ namespaces, g.getModuleNamespaces status fuel roots = some namespaces ∧
          ∀ module ∈ roots, ∃ ns, namespaces module = some ns ∧ ns.exports.Nodup ∧ ∀ name, name ∈ ns.exports ↔
              ∃ b, g.ModuleResolveExport fuel module name = some (.binding b) := by
  refine ⟨g.namespaceFuel, fun fuel hfuel => ?_⟩
  have hresolve : ∀ module exportName, ∃ r, g.ModuleResolveExport fuel module exportName = some r ∧
      r.Summarizes (g.terminals (module, exportName)) := by
    intro module exportName
    unfold namespaceFuel at hfuel
    exact ModuleResolveExport_spec hg (by omega) module exportName
  refine ⟨fun module exportName => ?_, fun g' h module exportName => ?_, fun status roots hst => ?_⟩
  · obtain ⟨r, heq, hr⟩ := hresolve module exportName
    exact ⟨r, heq, hr.null_iff, hr.binding_iff, hr.ambiguous_iff⟩
  · have hg' : g'.UniqueExportNames := fun m => h.ownNames_eq ▸ hg m
    have hnames : g'.importNames = g.importNames := by
      unfold importNames
      rw [h.indirectExportEntries]
    obtain ⟨r, heq, hr⟩ := hresolve module exportName
    obtain ⟨r', heq', hr'⟩ := ModuleResolveExport_spec hg' (show g'.resolveFuel ≤ fuel by
      unfold namespaceFuel resolveFuel at hfuel
      unfold resolveFuel
      rw [hnames]
      omega) module exportName
    rw [h.terminals_eq] at hr'
    rw [heq, heq', hr.eq hr']
  · obtain ⟨namespaces, heq, hcorrect, hroots⟩ := getModuleNamespaces_spec hg hfuel roots hst
    refine ⟨namespaces, heq, fun module hmodule => ?_⟩
    obtain ⟨ns, hns⟩ := Option.isSome_iff_exists.mp (hroots module hmodule)
    have hmodule := hcorrect module ns hns
    refine ⟨ns, hns, hmodule.nodup, fun name => ?_⟩
    obtain ⟨r, heq, hr⟩ := hresolve module name
    rw [hmodule.mem_exports, heq]
    constructor
    · rintro ⟨b, hb⟩
      exact ⟨b, congrArg some ((hr.binding_iff b).mpr hb)⟩
    · rintro ⟨b, hb⟩
      exact ⟨b, (hr.binding_iff b).mp (Option.some.inj hb)⟩

/-- Two modules: the first has star exports of both, the second one has a local export and exports
its own namespace. -/
def selfNamespaceGraph : ExportGraph Bool where
  localExportEntries module :=
    if module then [⟨JSString.ofAscii "a", JSString.ofAscii "x"⟩] else []
  indirectExportEntries module :=
    if module then [⟨JSString.ofAscii "ns", JSString.ofAscii "t", starName⟩] else []
  starExportEntries module := if module then [] else [JSString.ofAscii "f", JSString.ofAscii "t"]
  HostResolveImportedModule _ request := decide (request = JSString.ofAscii "t")

theorem resolution_by_terminals_selfNamespace : ∃ n, ∀ fuel ≥ n, ∃ r, selfNamespaceGraph.ModuleResolveExport fuel false
      (JSString.ofAscii "ns") = some r ∧
      ∀ b, r = .binding b ↔ selfNamespaceGraph.terminals (false, JSString.ofAscii "ns") = {b} := by
  have hunique : ∀ module, (selfNamespaceGraph.ownNames module).Nodup := by decide
  obtain ⟨n, h⟩ := resolution_by_terminals hunique
  refine ⟨n, fun fuel hfuel => ?_⟩
  obtain ⟨r, heq, -, hbinding, -⟩ := (h fuel hfuel).1 false (JSString.ofAscii "ns")
  exact ⟨r, heq, hbinding⟩

end ExportGraph

end SpiderMonkey
