import SpiderMonkey.Lib.Exploration
import SpiderMonkey.Vm.JSString

/-!
# Resolution of module exports

`ModuleResolveExport` follows indirect exports and star exports through the module graph.  All its
branches share one list of the requests made so far, and a request that is in the list resolves to
null, whether it is pending or has been answered.

A request is a node of a graph (`Follows`), and the bindings at which it ends are its values
(`Terminal`).  The resolution is a search of that graph (`Explores`), and what it answers is
determined by the set of bindings that it finds (`Summarizes`): none, one, or several.
-/

namespace SpiderMonkey

open Relation List

structure LocalExportEntry where
  exportName : JSString
  localName : JSString
  deriving DecidableEq

structure IndirectExportEntry where
  exportName : JSString
  moduleRequest : JSString
  importName : JSString
  deriving DecidableEq

/-- The export entries of the modules, and the modules that their requests resolve to. -/
structure ExportGraph (M : Type) where
  localExportEntries : M → List LocalExportEntry
  indirectExportEntries : M → List IndirectExportEntry
  /-- The module requests of the star export entries. -/
  starExportEntries : M → List JSString
  HostResolveImportedModule : M → JSString → M

def defaultName : JSString := JSString.ofAscii "default"

/-- The import name `*`, which stands for the namespace of a module. -/
def starName : JSString := JSString.ofAscii "*"

def namespaceName : JSString := JSString.ofAscii "*namespace*"

structure ResolvedBinding (M : Type) where
  module : M
  bindingName : JSString
  deriving DecidableEq

/-- What a request resolves to. -/
inductive Resolution (M : Type) where
  | null
  | ambiguous
  | binding (b : ResolvedBinding M)
  deriving DecidableEq

/-- A request for an export of a module. -/
abbrev ExportRequest (M : Type) := M × JSString

/-- The answer that a set of bindings calls for. -/
def Resolution.Summarizes {M : Type} (T : Set (ResolvedBinding M)) : Resolution M → Prop
  | .null => T = ∅
  | .binding b => T = {b}
  | .ambiguous => ∃ b ∈ T, ∃ b' ∈ T, b ≠ b'

namespace ExportGraph

open Set

variable {M : Type} [DecidableEq M] (g : ExportGraph M)

/-! ## The code -/

/-- The modules that the star export entries of a module refer to. -/
def starModules (module : M) : List M :=
  (g.starExportEntries module).map (g.HostResolveImportedModule module)

/-- Step 10 of `ModuleResolveExport`: the star exports that are left, with the resolution that has
been found so far. -/
def resolveStarExports (resolveExport : M → List (ExportRequest M) → Option (Resolution M × List (ExportRequest M))) :
    List M → Option (ResolvedBinding M) → List (ExportRequest M) → Option (Resolution M × List (ExportRequest M))
  | [], none, resolveSet => some (.null, resolveSet)
  | [], some starResolution, resolveSet => some (.binding starResolution, resolveSet)
  | importedModule :: rest, starResolution, resolveSet => do
    let (resolution, resolveSet) ← resolveExport importedModule resolveSet
    match resolution with
    | .ambiguous => return (.ambiguous, resolveSet)
    | .null => resolveStarExports resolveExport rest starResolution resolveSet
    | .binding b =>
      match starResolution with
      | none => resolveStarExports resolveExport rest (some b) resolveSet
      | some starBinding =>
        if b.module ≠ starBinding.module ∨ b.bindingName ≠ starBinding.bindingName then
          return (.ambiguous, resolveSet)
        else resolveStarExports resolveExport rest starResolution resolveSet

/-- `ModuleResolveExport`, with the resolve set as the state.  Without fuel it has no result. -/
def resolveExport : ℕ → M → JSString → List (ExportRequest M) → Option (Resolution M × List (ExportRequest M))
  | 0, _, _, _ => none
  | fuel + 1, module, exportName, resolveSet =>
    -- Either a circular request or one that has been answered.
    if (module, exportName) ∈ resolveSet then some (.null, resolveSet)
    else
      let resolveSet := resolveSet ++ [(module, exportName)]
      match (g.localExportEntries module).find? fun e => exportName = e.exportName with
      | some e => some (.binding ⟨module, e.localName⟩, resolveSet)
      | none =>
        match (g.indirectExportEntries module).find? fun e => exportName = e.exportName with
        | some e =>
          let importedModule := g.HostResolveImportedModule module e.moduleRequest
          if e.importName = starName then
            some (.binding ⟨importedModule, namespaceName⟩, resolveSet)
          else resolveExport fuel importedModule e.importName resolveSet
        | none =>
          if exportName = defaultName then some (.null, resolveSet)
          else
            resolveStarExports (fun m s => resolveExport fuel m exportName s)
              (g.starModules module) none resolveSet

def ModuleResolveExport (fuel : ℕ) (module : M) (exportName : JSString) : Option (Resolution M) :=
  Prod.fst <$> g.resolveExport fuel module exportName []

/-! ## The graph of requests -/

omit [DecidableEq M]

/-- The export names that a module has itself. -/
def ownNames (module : M) : List JSString :=
  (g.localExportEntries module).map LocalExportEntry.exportName ++
    (g.indirectExportEntries module).map IndirectExportEntry.exportName

/-- Every module has each of its own export names once. -/
def UniqueExportNames : Prop := ∀ module, (g.ownNames module).Nodup

/-- A request that ends in a binding. -/
inductive Terminal : ExportRequest M → ResolvedBinding M → Prop
  | localExport {module : M} {e : LocalExportEntry} (h : e ∈ g.localExportEntries module) :
      Terminal (module, e.exportName) ⟨module, e.localName⟩
  | namespaceExport {module : M} {e : IndirectExportEntry}
      (h : e ∈ g.indirectExportEntries module) (hstar : e.importName = starName) :
      Terminal (module, e.exportName)
        ⟨g.HostResolveImportedModule module e.moduleRequest, namespaceName⟩

/-- A request that leads to another one. -/
inductive Follows : ExportRequest M → ExportRequest M → Prop
  | indirect {module : M} {e : IndirectExportEntry} (h : e ∈ g.indirectExportEntries module)
      (hstar : e.importName ≠ starName) :
      Follows (module, e.exportName)
        (g.HostResolveImportedModule module e.moduleRequest, e.importName)
  | star {module imported : M} {exportName : JSString} (hname : exportName ≠ defaultName)
      (hown : exportName ∉ g.ownNames module) (h : imported ∈ g.starModules module) :
      Follows (module, exportName) (imported, exportName)

def terminals (request : ExportRequest M) : Set (ResolvedBinding M) :=
  {b | ∃ r, ReflTransGen g.Follows request r ∧ g.Terminal r b}

/-! ### One entry for a name -/

section UniqueExportNames

variable {g} (hg : g.UniqueExportNames) {module : M}

include hg

lemma UniqueExportNames.local_eq {e e' : LocalExportEntry} (h : e ∈ g.localExportEntries module)
    (h' : e' ∈ g.localExportEntries module) (heq : e.exportName = e'.exportName) : e = e' :=
  inj_on_of_nodup_map (nodup_append.mp (hg module)).1 h h' heq

lemma UniqueExportNames.indirect_eq {e e' : IndirectExportEntry}
    (h : e ∈ g.indirectExportEntries module) (h' : e' ∈ g.indirectExportEntries module)
    (heq : e.exportName = e'.exportName) : e = e' :=
  inj_on_of_nodup_map (nodup_append.mp (hg module)).2.1 h h' heq

lemma UniqueExportNames.local_ne_indirect {e : LocalExportEntry} {e' : IndirectExportEntry}
    (h : e ∈ g.localExportEntries module) (h' : e' ∈ g.indirectExportEntries module) :
    e.exportName ≠ e'.exportName :=
  (nodup_append.mp (hg module)).2.2 _ (mem_map_of_mem h) _ (mem_map_of_mem h')

lemma UniqueExportNames.terminal_local {e : LocalExportEntry} (h : e ∈ g.localExportEntries module) :
    {b | g.Terminal (module, e.exportName) b} = {⟨module, e.localName⟩} ∧
      {r | g.Follows (module, e.exportName) r} = ∅ := by
  constructor
  · ext b
    constructor
    · intro hb
      generalize hr : (module, e.exportName) = r at hb
      cases hb with
      | localExport h' =>
        obtain ⟨rfl, heq⟩ := Prod.mk.inj hr
        rw [hg.local_eq h h' heq]
        rfl
      | namespaceExport h' =>
        obtain ⟨rfl, heq⟩ := Prod.mk.inj hr
        exact absurd heq (hg.local_ne_indirect h h')
    · rintro rfl
      exact .localExport h
  · apply eq_empty_of_forall_notMem
    intro r hF
    generalize hr : (module, e.exportName) = r' at hF
    cases hF with
    | indirect h' =>
      obtain ⟨rfl, heq⟩ := Prod.mk.inj hr
      exact hg.local_ne_indirect h h' heq
    | star _ hown _ =>
      cases hr
      exact hown (mem_append_left _ (mem_map_of_mem h))

lemma UniqueExportNames.terminal_namespace {e : IndirectExportEntry}
    (h : e ∈ g.indirectExportEntries module) (hstar : e.importName = starName) :
    {b | g.Terminal (module, e.exportName) b} = {⟨g.HostResolveImportedModule module e.moduleRequest, namespaceName⟩} ∧
      {r | g.Follows (module, e.exportName) r} = ∅ := by
  constructor
  · ext b
    constructor
    · intro hb
      generalize hr : (module, e.exportName) = r at hb
      cases hb with
      | localExport h' =>
        obtain ⟨rfl, heq⟩ := Prod.mk.inj hr
        exact absurd heq.symm (hg.local_ne_indirect h' h)
      | namespaceExport h' =>
        obtain ⟨rfl, heq⟩ := Prod.mk.inj hr
        rw [hg.indirect_eq h h' heq]
        rfl
    · rintro rfl
      exact .namespaceExport h hstar
  · apply eq_empty_of_forall_notMem
    intro r hF
    generalize hr : (module, e.exportName) = r' at hF
    cases hF with
    | indirect h' hstar' =>
      obtain ⟨rfl, heq⟩ := Prod.mk.inj hr
      rw [hg.indirect_eq h h' heq] at hstar
      exact hstar' hstar
    | star _ hown _ =>
      cases hr
      exact hown (mem_append_right _ (mem_map_of_mem h))

lemma UniqueExportNames.follows_indirect {e : IndirectExportEntry}
    (h : e ∈ g.indirectExportEntries module) (hstar : e.importName ≠ starName) :
    {b | g.Terminal (module, e.exportName) b} = ∅ ∧ {r | g.Follows (module, e.exportName) r} =
        {(g.HostResolveImportedModule module e.moduleRequest, e.importName)} := by
  constructor
  · apply eq_empty_of_forall_notMem
    intro b hb
    generalize hr : (module, e.exportName) = r at hb
    cases hb with
    | localExport h' =>
      obtain ⟨rfl, heq⟩ := Prod.mk.inj hr
      exact hg.local_ne_indirect h' h heq.symm
    | namespaceExport h' hstar' =>
      obtain ⟨rfl, heq⟩ := Prod.mk.inj hr
      rw [hg.indirect_eq h h' heq] at hstar
      exact hstar hstar'
  · ext r
    constructor
    · intro hF
      generalize hr : (module, e.exportName) = r' at hF
      cases hF with
      | indirect h' =>
        obtain ⟨rfl, heq⟩ := Prod.mk.inj hr
        rw [hg.indirect_eq h h' heq]
        rfl
      | star _ hown _ =>
        cases hr
        exact absurd (mem_append_right _ (mem_map_of_mem h)) hown
    · rintro rfl
      exact .indirect h hstar

end UniqueExportNames

section ForeignNames

variable {g} {module : M} {exportName : JSString}

lemma terminal_of_notMem (hown : exportName ∉ g.ownNames module) : {b | g.Terminal (module, exportName) b} = ∅ := by
  apply eq_empty_of_forall_notMem
  intro b hb
  generalize hr : (module, exportName) = r at hb
  cases hb with
  | localExport h =>
    cases hr
    exact hown (mem_append_left _ (mem_map_of_mem h))
  | namespaceExport h =>
    cases hr
    exact hown (mem_append_right _ (mem_map_of_mem h))

lemma follows_of_notMem (hown : exportName ∉ g.ownNames module) : {r | g.Follows (module, exportName) r} =
      {r | exportName ≠ defaultName ∧ r.1 ∈ g.starModules module ∧ r.2 = exportName} := by
  ext r
  constructor
  · intro hF
    generalize hr : (module, exportName) = r' at hF
    cases hF with
    | indirect h =>
      cases hr
      exact absurd (mem_append_right _ (mem_map_of_mem h)) hown
    | star hname _ h =>
      cases hr
      exact ⟨hname, h, rfl⟩
  · obtain ⟨imported, name⟩ := r
    rintro ⟨hname, h, rfl⟩
    exact .star hname hown h

end ForeignNames

/-! ## What the search finds -/

def requests (resolveSet : List (ExportRequest M)) : Set (ExportRequest M) := {r | r ∈ resolveSet}

lemma requests_append (resolveSet : List (ExportRequest M)) (r : ExportRequest M) :
    requests (resolveSet ++ [r]) = insert r (requests resolveSet) := by
  ext r'
  simpa [requests] using or_comm

/-- The bindings that the requests from `S` to `S'` end at. -/
def found (S S' : List (ExportRequest M)) : Set (ResolvedBinding M) :=
  Found (fun r => {b | g.Terminal r b}) (requests S) (requests S')

/-- What a search for `roots` answers, where it takes the resolve set from `S` to `S'`.  It stops at
the second binding, and otherwise it is complete. -/
inductive Resolves (roots : Set (ExportRequest M)) (S S' : List (ExportRequest M)) : Resolution M → Prop
  | ambiguous {r r' : ExportRequest M} {b b' : ResolvedBinding M} (hr : r ∈ roots)
      (hr' : r' ∈ roots) (hb : b ∈ g.terminals r) (hb' : b' ∈ g.terminals r') (hne : b ≠ b') :
      Resolves roots S S' .ambiguous
  | null (h : Explores g.Follows roots (requests S) (requests S')) (hf : g.found S S' = ∅) : Resolves roots S S' .null
  | binding {b : ResolvedBinding M} (h : Explores g.Follows roots (requests S) (requests S'))
      (hf : g.found S S' = {b}) : Resolves roots S S' (.binding b)

variable {g}

lemma mem_terminals_of_found {roots : Set (ExportRequest M)} {S S' : List (ExportRequest M)}
    (h : Explores g.Follows roots (requests S) (requests S')) {b : ResolvedBinding M}
    (hb : b ∈ g.found S S') : ∃ r ∈ roots, b ∈ g.terminals r :=
  Found.exists_reachable h hb

lemma Resolves.node {request : ExportRequest M} {S S' : List (ExportRequest M)} {r : Resolution M}
    (hn : request ∉ S) (hterm : {b | g.Terminal request b} = ∅)
    (h : g.Resolves {r | g.Follows request r} (S ++ [request]) S' r) :
    g.Resolves {request} S S' r := by
  have hfound : insert request (requests S) ⊆ requests S' → g.found S S' = g.found (S ++ [request]) S' := by
    intro hsub
    unfold found
    simp [Found.node (S := requests S) hn hsub, hterm, requests_append]
  cases h with
  | ambiguous hr hr' hb hb' hne =>
    refine .ambiguous rfl rfl ?_ ?_ hne
    · obtain ⟨w, hw, ht⟩ := hb
      exact ⟨w, .head hr hw, ht⟩
    · obtain ⟨w, hw, ht⟩ := hb'
      exact ⟨w, .head hr' hw, ht⟩
  | null h hf =>
    rw [requests_append] at h
    exact .null h.node ((hfound h.subset).trans hf)
  | binding h hf =>
    rw [requests_append] at h
    exact .binding h.node ((hfound h.subset).trans hf)

lemma Resolves.terminal {request : ExportRequest M} {S : List (ExportRequest M)}
    {b : ResolvedBinding M} (hn : request ∉ S) (hterm : {b | g.Terminal request b} = {b})
    (hfollow : {r | g.Follows request r} = ∅) :
    g.Resolves {request} S (S ++ [request]) (.binding b) := by
  have h : Explores g.Follows {r | g.Follows request r} (insert request (requests S))
      (requests (S ++ [request])) := by
    rw [hfollow, requests_append]
    exact .nil
  refine .binding h.node ?_
  unfold found
  rw [Found.node (S := requests S) hn h.subset, hterm, requests_append, Found.self, union_empty]

def starAnswer : Option (ResolvedBinding M) → Resolution M
  | none => .null
  | some b => .binding b

lemma Resolves.append_null {roots roots' : Set (ExportRequest M)} {S S' S'' : List (ExportRequest M)}
    {r : Resolution M} (h : g.Resolves roots S S' .null) (h' : g.Resolves roots' S' S'' r) :
    g.Resolves (roots ∪ roots') S S'' r := by
  cases h with
  | null h hf =>
    cases h' with
    | ambiguous hr hr' hb hb' hne => exact .ambiguous (.inr hr) (.inr hr') hb hb' hne
    | null h' hf' =>
      refine .null (h.append h') ?_
      unfold found at hf hf' ⊢
      simp [Found.append h.subset h'.subset, hf, hf']
    | binding h' hf' =>
      refine .binding (h.append h') ?_
      unfold found at hf hf' ⊢
      simp [Found.append h.subset h'.subset, hf, hf']

lemma Resolves.append_binding {roots roots' : Set (ExportRequest M)}
    {S S' S'' : List (ExportRequest M)} {b : ResolvedBinding M} {r : Resolution M}
    (h : g.Resolves roots S S' (.binding b)) (h' : g.Resolves roots' S' S'' r)
    (hr : r = .null ∨ r = .binding b) : g.Resolves (roots ∪ roots') S S'' (.binding b) := by
  cases h with
  | binding h hf =>
    obtain rfl | rfl := hr
    · cases h' with
      | null h' hf' =>
        refine .binding (h.append h') ?_
        unfold found at hf hf' ⊢
        simp [Found.append h.subset h'.subset, hf, hf']
    · cases h' with
      | binding h' hf' =>
        refine .binding (h.append h') ?_
        unfold found at hf hf' ⊢
        simp [Found.append h.subset h'.subset, hf, hf']

lemma Resolves.append_ne {roots roots' : Set (ExportRequest M)} {S S' S'' : List (ExportRequest M)}
    {b b' : ResolvedBinding M} (h : g.Resolves roots S S' (.binding b))
    (h' : g.Resolves roots' S' S'' (.binding b')) (hne : b ≠ b') :
    g.Resolves (roots ∪ roots') S S'' .ambiguous := by
  cases h with
  | binding h hf =>
    cases h' with
    | binding h' hf' =>
      obtain ⟨r, hr, hb⟩ := mem_terminals_of_found h (hf ▸ mem_singleton b)
      obtain ⟨r', hr', hb'⟩ := mem_terminals_of_found h' (hf' ▸ mem_singleton b')
      exact .ambiguous (.inl hr) (.inr hr') hb hb' hne

/-- Step 10 searches the star exports in turn.  What has been found for those before is in
`starResolution`. -/
lemma resolveStarExports_spec [DecidableEq M] {exportName : JSString}
    {resolve : M → List (ExportRequest M) → Option (Resolution M × List (ExportRequest M))}
    {S : List (ExportRequest M)} :
    ∀ (rest : List M) {roots : Set (ExportRequest M)} {starResolution : Option (ResolvedBinding M)}
      {S' : List (ExportRequest M)},
      (∀ imported ∈ rest, ∀ S', requests S ⊆ requests S' → ∃ r S'',
        resolve imported S' = some (r, S'') ∧ g.Resolves {(imported, exportName)} S' S'' r) →
      g.Resolves roots S S' (starAnswer starResolution) →
      ∃ r S'', resolveStarExports resolve rest starResolution S' = some (r, S'') ∧
        g.Resolves (roots ∪ {r | r.1 ∈ rest ∧ r.2 = exportName}) S S'' r := by
  intro rest
  induction rest with
  | nil =>
    intro roots starResolution S' _ h
    have hroots : roots ∪ {r : ExportRequest M | r.1 ∈ ([] : List M) ∧ r.2 = exportName} = roots := by
      rw [union_eq_left]
      intro r hr
      cases hr.1
    cases starResolution with
    | none => exact ⟨_, _, rfl, by rw [hroots]; exact h⟩
    | some b => exact ⟨_, _, rfl, by rw [hroots]; exact h⟩
  | cons imported rest ih =>
    intro roots starResolution S' hresolve h
    have hsub : requests S ⊆ requests S' := by
      cases starResolution with
      | none => cases h with | null h _ => exact h.subset
      | some b => cases h with | binding h _ => exact h.subset
    have hroots : roots ∪ {r : ExportRequest M | r.1 ∈ imported :: rest ∧ r.2 = exportName} =
        roots ∪ {(imported, exportName)} ∪ {r | r.1 ∈ rest ∧ r.2 = exportName} := by
      ext ⟨m, name⟩
      simp only [mem_union, mem_ofPred_eq, mem_cons, mem_singleton_iff, Prod.mk.injEq]
      tauto
    obtain ⟨r, S'', heq, hr⟩ := hresolve imported mem_cons_self S' hsub
    have hrest : ∀ imported ∈ rest, ∀ S', requests S ⊆ requests S' → ∃ r S'',
        resolve imported S' = some (r, S'') ∧ g.Resolves {(imported, exportName)} S' S'' r :=
      fun i hi => hresolve i (mem_cons_of_mem _ hi)
    -- An ambiguous answer for one of the roots is one for all of them.
    have hambiguous : g.Resolves (roots ∪ {(imported, exportName)}) S S'' .ambiguous →
        g.Resolves (roots ∪ {r | r.1 ∈ imported :: rest ∧ r.2 = exportName}) S S'' .ambiguous := by
      intro h
      rw [hroots]
      cases h with
      | ambiguous hr hr' hb hb' hne => exact .ambiguous (.inl hr) (.inl hr') hb hb' hne
    rw [resolveStarExports, heq]
    cases r with
    | ambiguous =>
      refine ⟨_, _, rfl, hambiguous ?_⟩
      cases hr with
      | ambiguous hr hr' hb hb' hne => exact .ambiguous (.inr hr) (.inr hr') hb hb' hne
    | null =>
      have hnext : g.Resolves (roots ∪ {(imported, exportName)}) S S'' (starAnswer starResolution) := by
        cases starResolution with
        | none => exact h.append_null hr
        | some b => exact h.append_binding hr (.inl rfl)
      obtain ⟨r, S₃, heq', hr'⟩ := ih hrest hnext
      exact ⟨r, S₃, heq', hroots ▸ hr'⟩
    | binding b =>
      cases starResolution with
      | none =>
        have hnext : g.Resolves (roots ∪ {(imported, exportName)}) S S'' (starAnswer (some b)) := h.append_null hr
        obtain ⟨r, S₃, heq', hr'⟩ := ih hrest hnext
        exact ⟨r, S₃, heq', hroots ▸ hr'⟩
      | some b' =>
        by_cases hne : b.module ≠ b'.module ∨ b.bindingName ≠ b'.bindingName
        · refine ⟨.ambiguous, S'', if_pos hne, hambiguous (h.append_ne hr ?_)⟩
          rintro rfl
          exact hne.elim (fun h => h rfl) fun h => h rfl
        · have hb : b = b' := by
            rw [not_or, not_not, not_not] at hne
            obtain ⟨module, bindingName⟩ := b
            obtain ⟨rfl, rfl⟩ := hne
            rfl
          have hnext : g.Resolves (roots ∪ {(imported, exportName)}) S S'' (starAnswer (some b')) :=
            h.append_binding hr (.inr (by rw [hb]))
          obtain ⟨r, S₃, heq', hr'⟩ := ih hrest hnext
          exact ⟨r, S₃, (if_neg hne).trans heq', hroots ▸ hr'⟩

/-- A resolution searches what the request leads to, if there is fuel for the requests of `U` that
have not been made. -/
theorem resolveExport_spec [DecidableEq M] (hg : g.UniqueExportNames) {U : Set (ExportRequest M)}
    (hU : U.Finite) (hclosed : ∀ r ∈ U, ∀ r', g.Follows r r' → r' ∈ U) :
    ∀ (fuel : ℕ) (module : M) (exportName : JSString) (S : List (ExportRequest M)),
      (module, exportName) ∈ U → remaining U (requests S) < fuel →
      ∃ r S', g.resolveExport fuel module exportName S = some (r, S') ∧ g.Resolves {(module, exportName)} S S' r := by
  intro fuel
  induction fuel with
  | zero => exact fun _ _ _ _ h => absurd h (Nat.not_lt_zero _)
  | succ fuel ih =>
    intro module exportName S hmem hfuel
    rw [resolveExport]
    by_cases hS : (module, exportName) ∈ S
    · rw [if_pos hS]
      refine ⟨_, _, rfl, .null (.visited hS) ?_⟩
      exact Found.self
    rw [if_neg hS]
    have hleft : remaining U (requests (S ++ [(module, exportName)])) < fuel := by
      rw [requests_append]
      have := remaining_insert_lt hU hmem (S := requests S) hS
      omega
    cases hlocal : (g.localExportEntries module).find? fun e => exportName = e.exportName with
    | some e =>
      have hname := find?_some hlocal
      rw [decide_eq_true_eq] at hname
      subst hname
      obtain ⟨hterm, hfollow⟩ := hg.terminal_local (mem_of_find?_eq_some hlocal)
      exact ⟨_, _, rfl, .terminal hS hterm hfollow⟩
    | none =>
    cases hindirect : (g.indirectExportEntries module).find? fun e => exportName = e.exportName with
    | some e =>
      have hname := find?_some hindirect
      rw [decide_eq_true_eq] at hname
      subst hname
      have he := mem_of_find?_eq_some hindirect
      by_cases hstar : e.importName = starName
      · obtain ⟨hterm, hfollow⟩ := hg.terminal_namespace he hstar
        exact ⟨_, _, if_pos hstar, .terminal hS hterm hfollow⟩
      · obtain ⟨hterm, hfollow⟩ := hg.follows_indirect he hstar
        obtain ⟨r, S', heq, hr⟩ := ih _ e.importName _
          (hclosed _ hmem _ (.indirect he hstar)) hleft
        refine ⟨r, S', (if_neg hstar).trans heq, .node hS hterm ?_⟩
        rw [hfollow]
        exact hr
    | none =>
    have hown : exportName ∉ g.ownNames module := by
      intro h
      obtain h | h := mem_append.mp h
      · obtain ⟨e, he, rfl⟩ := mem_map.mp h
        exact absurd (find?_eq_none.mp hlocal e he) (by simp)
      · obtain ⟨e, he, rfl⟩ := mem_map.mp h
        exact absurd (find?_eq_none.mp hindirect e he) (by simp)
    have hterm := terminal_of_notMem hown
    have hfollow := follows_of_notMem hown
    by_cases hdefault : exportName = defaultName
    · refine ⟨_, _, if_pos hdefault, .node hS hterm (.null ?_ Found.self)⟩
      have hempty : {r | g.Follows (module, exportName) r} = ∅ := by
        rw [hfollow]
        exact eq_empty_of_forall_notMem fun r h => h.1 hdefault
      rw [hempty]
      exact .nil
    · have hstart : g.Resolves ∅ (S ++ [(module, exportName)]) (S ++ [(module, exportName)])
          (starAnswer none) := .null .nil Found.self
      obtain ⟨r, S', heq, hr⟩ := resolveStarExports_spec (g.starModules module)
        (fun imported himported S' hsub => ih _ _ _ (hclosed _ hmem _ (.star hdefault hown himported))
          ((remaining_le hU hsub).trans_lt hleft)) hstart
      refine ⟨r, S', (if_neg hdefault).trans heq, .node hS hterm ?_⟩
      have hroots : {r | g.Follows (module, exportName) r} =
          ∅ ∪ {r | r.1 ∈ g.starModules module ∧ r.2 = exportName} := by
        rw [hfollow, empty_union]
        ext r
        exact and_iff_right hdefault
      rw [hroots]
      exact hr

/-- From an empty resolve set the answer is the one that the terminal bindings call for. -/
lemma Resolves.summarizes {request : ExportRequest M} {S' : List (ExportRequest M)}
    {r : Resolution M} (h : g.Resolves {request} [] S' r) : r.Summarizes (g.terminals request) := by
  have hfound : Explores g.Follows {request} (requests []) (requests S') → g.found [] S' = g.terminals request := by
    intro h
    have hnil : requests ([] : List (ExportRequest M)) = ∅ := eq_empty_of_forall_notMem fun _ => not_mem_nil
    rw [hnil] at h
    have hreach := h.eq_reachable
    ext b
    constructor
    · rintro ⟨w, hw, -, hb⟩
      rw [hreach] at hw
      exact ⟨w, hw, hb⟩
    · rintro ⟨w, hw, hb⟩
      exact ⟨w, hreach ▸ hw, not_mem_nil, hb⟩
  cases h with
  | ambiguous hr hr' hb hb' hne =>
    obtain rfl := hr
    obtain rfl := hr'
    exact ⟨_, hb, _, hb', hne⟩
  | null h hf => exact (hfound h).symm.trans hf
  | binding h hf => exact (hfound h).symm.trans hf

/-! ## Termination -/

variable (g)

def importNames : Set JSString :=
  {name | ∃ module, ∃ e ∈ g.indirectExportEntries module, e.importName = name}

variable (exportName : JSString)

/-- The requests that a request for `exportName` can lead to. -/
def requestsFor : Set (ExportRequest M) :=
  {r | r.2 ∈ insert exportName g.importNames}

/-- Fuel that suffices for every request. -/
noncomputable def resolveFuel : ℕ := Nat.card M * (g.importNames.ncard + 1) + 1

variable {g}

lemma requestsFor_closed {exportName : JSString} {r r' : ExportRequest M}
    (hr : r ∈ g.requestsFor exportName) (h : g.Follows r r') : r' ∈ g.requestsFor exportName := by
  cases h with
  | indirect he _ => exact .inr ⟨_, _, he, rfl⟩
  | star _ _ _ => exact hr

variable [Finite M]

lemma importNames_finite : g.importNames.Finite := by
  have h : g.importNames = ⋃ module, {name | name ∈
      (g.indirectExportEntries module).map IndirectExportEntry.importName} := by
    ext name
    simp [importNames]
  rw [h]
  exact finite_iUnion fun module => finite_toSet _

omit [Finite M] in
lemma requestsFor_eq : g.requestsFor exportName = univ ×ˢ insert exportName g.importNames := by
  ext r
  simp [requestsFor]

lemma requestsFor_finite : (g.requestsFor exportName).Finite := by
  rw [requestsFor_eq]
  exact finite_univ.prod (importNames_finite.insert exportName)

omit [Finite M] in
lemma ncard_requestsFor_lt : (g.requestsFor exportName).ncard < g.resolveFuel := by
  rw [requestsFor_eq, ncard_prod, ncard_univ]
  exact Nat.lt_succ_of_le (Nat.mul_le_mul_left _ (ncard_insert_le exportName g.importNames))

/-- With enough fuel a request is resolved to what its terminal bindings call for. -/
theorem ModuleResolveExport_spec [DecidableEq M] (hg : g.UniqueExportNames) {fuel : ℕ}
    (hfuel : g.resolveFuel ≤ fuel) (module : M) (exportName : JSString) :
    ∃ r, g.ModuleResolveExport fuel module exportName = some r ∧ r.Summarizes (g.terminals (module, exportName)) := by
  have hleft : remaining (g.requestsFor exportName) (requests []) < fuel :=
    (remaining_le_ncard (requestsFor_finite exportName)).trans_lt
      ((ncard_requestsFor_lt exportName).trans_le hfuel)
  obtain ⟨r, S', heq, hr⟩ := resolveExport_spec hg (requestsFor_finite exportName)
    (fun _ hr _ h => requestsFor_closed hr h) fuel module exportName []
    (mem_insert exportName _) hleft
  refine ⟨r, ?_, hr.summarizes⟩
  rw [ModuleResolveExport, heq]
  rfl

end ExportGraph

namespace Resolution

variable {M : Type} {T : Set (ResolvedBinding M)} {r r' : Resolution M}

lemma Summarizes.eq (h : r.Summarizes T) (h' : r'.Summarizes T) : r = r' := by
  have hne : ∀ b, ∅ ≠ ({b} : Set (ResolvedBinding M)) := fun b => (Set.singleton_ne_empty b).symm
  cases r with
  | null =>
    obtain rfl : T = ∅ := h
    cases r' with
    | null => rfl
    | binding b => exact absurd h' (hne b)
    | ambiguous =>
      obtain ⟨b, hb, -⟩ := h'
      exact absurd hb (Set.notMem_empty b)
  | binding b =>
    obtain rfl : T = {b} := h
    cases r' with
    | null => exact absurd h'.symm (hne b)
    | binding b' => rw [Set.singleton_injective h']
    | ambiguous =>
      obtain ⟨c, rfl, c', rfl, hne⟩ := h'
      exact absurd rfl hne
  | ambiguous =>
    obtain ⟨c, hc, c', hc', hcc⟩ := h
    cases r' with
    | null =>
      obtain rfl : T = ∅ := h'
      exact absurd hc (Set.notMem_empty c)
    | binding b =>
      obtain rfl : T = {b} := h'
      exact absurd (hc.trans hc'.symm) hcc
    | ambiguous => rfl

lemma Summarizes.null_iff (h : r.Summarizes T) : r = .null ↔ T = ∅ :=
  ⟨fun hr => by rw [hr] at h; exact h, fun hT => h.eq (show Resolution.null.Summarizes T from hT)⟩

lemma Summarizes.binding_iff (h : r.Summarizes T) (b : ResolvedBinding M) : r = .binding b ↔ T = {b} :=
  ⟨fun hr => by rw [hr] at h; exact h, fun hT => h.eq (show (Resolution.binding b).Summarizes T from hT)⟩

lemma Summarizes.ambiguous_iff (h : r.Summarizes T) : r = .ambiguous ↔ ∃ b ∈ T, ∃ b' ∈ T, b ≠ b' :=
  ⟨fun hr => by rw [hr] at h; exact h, fun hT => h.eq (show Resolution.ambiguous.Summarizes T from hT)⟩

end Resolution

end SpiderMonkey
