import SpiderMonkey.Jit.AliasInvariant

/-!
# Alias analysis is sound

Two loads with the same dependency, the first of which dominates the second, have no aliasing store between
them in any run, and a load whose dependency is outside a loop is not changed by the loop (`analyze_sound`).
The dependency has a smaller number than the load, but for a load of a header that comes to depend on the
end of the header, and for a load that is the very first instruction.
-/

open Dominance

namespace SpiderMonkey.AliasAnalysis

open Graph

variable {answers : Answers} {graph : Graph} {ins d₁ d₂ st : MInstruction} {dep h u : ℕ}

variable (answers graph) in
/-- What the dependency of a load accounts for when all loops are resolved. -/
def Answers.Accounts (ins : MInstruction) (dep : ℕ) : Prop :=
  answers.Open graph graph.numBlocks ins dep ∨ ∃ h u, answers.Fixed graph h u ins dep

namespace Answers

lemma InitialDep.le_id (hdep : answers.InitialDep graph ins dep) (hins : graph.Has ins) : dep ≤ ins.id := by
  obtain rfl | ⟨st, -, -, hlt, rfl⟩ := hdep.source
  · exact hins.le_id.2 (Nat.zero_le _)
  · exact hlt.le

/-- No store is the last instruction of a block. -/
lemma InitialDep.ne_lastIns (hdep : answers.InitialDep graph ins dep) (hpos : 0 < h) : dep ≠ graph.lastIns h := by
  rintro rfl
  obtain heq | ⟨st, hst, -, -, heq⟩ := hdep.source
  · have := graph.firstInstruction_lt hpos
    have := graph.firstInstruction_le_lastIns h
    omega
  · have hblock : st.block = h := hst.inBlock.eq (heq ▸ inBlock_lastIns h)
    have := hst.bounds.2
    rw [hblock] at this
    omega

namespace Accounts

variable (hgraph : graph.Reducible) (hins : graph.Has ins) (hdep : answers.Accounts graph ins dep)
include hgraph hins hdep

lemma le_or : dep ≤ ins.id ∨ ∃ h u, graph.InLoop h u ins ∧ dep = graph.lastIns h := by
  obtain hopen | ⟨h, u, hfixed⟩ := hdep
  · exact .inl (hopen.initial.le_id hins)
  · exact .inr ⟨h, u, hfixed.inLoop, hfixed.eq⟩

lemma lt_or : dep < ins.id ∨ (dep = ins.id ∧ dep = graph.firstInstruction 0) ∨
    ∃ u, graph.IsLoop ins.block u ∧ dep = graph.lastIns ins.block := by
  obtain ⟨hinit, -⟩ | ⟨h, u, ⟨hloop, hle, hu⟩, rfl, -⟩ := hdep
  · obtain heq | ⟨st, -, -, hlt, rfl⟩ := hinit.source
    · obtain hlt | hid := (hinit.le_id hins).lt_or_eq
      · exact .inl hlt
      · omega
    · exact .inl hlt
  · obtain rfl | hlt := hle.eq_or_lt
    · exact .inr (.inr ⟨u, hloop, rfl⟩)
    · exact .inl ((inBlock_lastIns h).lt hins.inBlock hlt)

/-- No store of a loop may alias a load of the loop whose dependency is elsewhere. -/
theorem aliasFree (hloop : graph.InLoop h u ins) (hout : ¬ (graph.start h ≤ dep ∧ dep ≤ graph.lastIns u)) :
    answers.AliasFree graph h u ins := by
  obtain ⟨hinit, hfree⟩ | ⟨h', u', ⟨hloop', hle', hu'⟩, rfl, dep₀, hlt, -, hfree⟩ := hdep
  · have hle := hinit.le_id hins
    have hlast := hins.inBlock.le_lastIns_iff.2 hloop.2.2
    have hstart := graph.start_le_firstInstruction h
    exact hfree h u hloop hloop.1.2.1 (by omega)
  · -- the header on which the load depends is outside the loop, which is an inner one
    have hcase : h' < h ∧ u < u' := by
      by_contra hnot
      refine hout ⟨?_, ?_⟩
      · refine (inBlock_lastIns h').start_le_iff.2 (not_lt.1 fun hlt => hnot ⟨hlt, ?_⟩)
        by_contra hle
        have := hloop'.le_header hgraph hloop.1 hle' hu' hloop.2.1 hloop.2.2 (not_lt.1 hle)
        omega
      · exact (inBlock_lastIns h').le_lastIns_iff.2 (hle'.trans hloop.2.2)
    exact hfree h u hloop hcase.2 (hlt.trans (graph.firstInstruction_lt hcase.1))

/-- The dependency does not come before an aliasing store that may reach the load, but for a load that
depends on the header of a later loop. -/
lemma le_of_mightReach (hst : answers.Aliases graph ins st) (hlt : st.id < ins.id)
    (hreach : graph.blockMightReach (ins.block + 1) st.block ins.block = true) :
    (answers.InitialDep graph ins dep ∧ st.id ≤ dep) ∨
      ∃ h u, graph.InLoop h u ins ∧ dep = graph.lastIns h ∧ st.block < h := by
  obtain ⟨hinit, -⟩ | ⟨h, u, hloop, rfl, dep₀, hdep₀, hinit, -⟩ := hdep
  · exact .inl ⟨hinit, hinit.le st hst hlt hreach⟩
  · refine .inr ⟨h, u, hloop, rfl, ?_⟩
    have hle := hinit.le st hst hlt hreach
    rw [← not_le, ← hst.1.le_id]
    omega

end Accounts

/-! ## Runs between two loads -/

variable (hgraph : graph.Reducible) {l₁ l₂ : List ℕ} (hdom : Dominates graph.Step graph.IsEntry d₁.id d₂.id)
  (ht₁ : Trail graph.Step d₁.id l₁ st.id) (ht₂ : Trail graph.Step st.id l₂ d₂.id) (hmem : st.id ∈ l₁)
  (hnot : d₁.id ∉ l₁ ++ l₂)
include hgraph hdom ht₁ ht₂ hnot

include hmem in
/-- What is executed after the last execution of a load that dominates comes later in the program. -/
lemma lt_of_trail : d₁.id < st.id := by
  by_contra hle
  have hE := hgraph.loopIntervals
  obtain ⟨h, u, hloop, hh, -, hl⟩ := hE.exists_header ht₁ (List.ne_nil_of_mem hmem) (not_lt.1 hle)
  exact hE.not_dominates hloop (hh.trans (not_lt.1 hle)) (ht₁.append ht₂) (List.mem_append_left _ hl) hnot hdom

/-- No loop with the dominating load is entered again. -/
lemma lt_header {i j : ℕ} (hloop : graph.LoopNumbers i j) (hl : i ∈ l₂) : d₁.id < i := by
  by_contra hle
  refine hgraph.loopIntervals.not_dominates hloop (not_lt.1 hle) ht₂ hl (fun hin => ?_) hdom
  exact hnot (List.mem_append_right _ hin)

omit hdom ht₁ hnot in
/-- A store that is executed before the load but is not found by the test shares a loop with the load. -/
lemma exists_loop (hst : graph.Has st) (hd₂ : graph.Has d₂) (hne : st ≠ d₂)
    (hreach : ¬ (st.id < d₂.id ∧ graph.blockMightReach (d₂.block + 1) st.block d₂.block = true)) :
    ∃ h u, graph.InLoop h u d₂ ∧ h ≤ st.block ∧ st.block ≤ u ∧ graph.start h ∈ l₂ := by
  have hE := hgraph.loopIntervals
  suffices hnumbers : ∃ i j, graph.LoopNumbers i j ∧ i ≤ st.id ∧ st.id ≤ j ∧ i ≤ d₂.id ∧ d₂.id ≤ j ∧ i ∈ l₂ by
    obtain ⟨i, j, ⟨h, u, hloop, rfl, rfl⟩, h₁, h₂, h₃, h₄, hl⟩ := hnumbers
    rw [hst.inBlock.start_le_iff] at h₁
    rw [hst.inBlock.le_lastIns_iff] at h₂
    rw [hd₂.inBlock.start_le_iff] at h₃
    rw [hd₂.inBlock.le_lastIns_iff] at h₄
    exact ⟨h, u, ⟨hloop, h₃, h₄⟩, h₁, h₂, hl⟩
  by_cases hlt : st.id < d₂.id
  · have hfalse := Bool.eq_false_iff.2 fun htrue => hreach ⟨hlt, htrue⟩
    have hblocks : st.block ≤ d₂.block := by
      by_contra hgt
      have := hd₂.inBlock.lt hst.inBlock (not_le.1 hgt)
      omega
    obtain ⟨i, j, hloop, h₁, h₂, h₃, hl⟩ := hgraph.exists_header_of_not_mightReach hfalse (by omega) hblocks
      hst.1 hst.inBlock hd₂.inBlock ht₂
    exact ⟨i, j, hloop, h₁, by omega, h₂, h₃, hl⟩
  · have hnil : l₂ ≠ [] := by
      rintro rfl
      generalize hi : st.id = i at ht₂
      generalize hj : d₂.id = j at ht₂
      cases ht₂
      exact hne (hst.eq_of_id hd₂ (hi.trans hj.symm))
    obtain ⟨i, j, hloop, h₁, h₂, hl⟩ := hE.exists_header ht₂ hnil (not_lt.1 hlt)
    exact ⟨i, j, hloop, by omega, h₂, h₁, by omega, hl⟩

include hmem in
/-- The store is not executed between two loads with the same dependency. -/
lemma not_aliases (hd₁ : graph.Has d₁) (hd₂ : graph.Has d₂) (hload : d₂.IsLoad)
    (hdep₁ : answers.Accounts graph d₁ dep) (hdep₂ : answers.Accounts graph d₂ dep) :
    ¬ answers.Aliases graph d₂ st := by
  intro hst
  have hlt := lt_of_trail hgraph hdom ht₁ ht₂ hmem hnot
  have hle := hdep₁.le_or hgraph hd₁
  by_cases hreach : st.id < d₂.id ∧ graph.blockMightReach (d₂.block + 1) st.block d₂.block = true
  · obtain ⟨hinit, hle₂⟩ | ⟨h, u, hloop, rfl, hbefore⟩ := hdep₂.le_of_mightReach hgraph hd₂ hst hreach.1 hreach.2
    · -- the dependency of both is no earlier than the store, and no later than the first load
      obtain hle | ⟨h, u, hloop, heq⟩ := hle
      · omega
      · exact hinit.ne_lastIns (hgraph.header_pos hloop.1) heq
    · -- both depend on the header of a loop after the store
      have hblock : st.block < d₁.block := by
        obtain hle | ⟨h', u', hloop', heq⟩ := hle
        · have := hd₁.inBlock.start_le_iff.1 ((graph.start_le_lastIns h).trans hle)
          omega
        · have := (inBlock_lastIns h).eq (heq ▸ inBlock_lastIns h')
          have := hloop'.2.1
          omega
      have := hst.1.inBlock.lt hd₁.inBlock hblock
      omega
  · have hne : st ≠ d₂ := fun heq => hload.not_isStore (heq ▸ hst.2.1)
    obtain ⟨h, u, hloop, hle₁, hle₂, hl⟩ := exists_loop hgraph ht₂ hst.1 hd₂ hne hreach
    have hheader := lt_header hgraph hdom ht₁ ht₂ hnot ⟨h, u, hloop.1, rfl, rfl⟩ hl
    -- the dependency is in a loop that the first load comes before
    have hin : graph.start h ≤ dep := by
      by_contra hout
      exact hdep₂.aliasFree hgraph hd₂ hloop (fun hin => hout hin.1) st hst hle₁ hle₂
    obtain hle | ⟨h', u', hloop', rfl⟩ := hle
    · omega
    · have hh := (inBlock_lastIns h').start_le_iff.1 hin
      have := hd₁.inBlock.start_le_iff.2 (hh.trans hloop'.2.1)
      omega

end Answers

/-! ## The analysis -/

open Answers in
/-- The analysis succeeds; it gives every load a dependency; no store of a loop may alias a load of the loop
whose dependency is elsewhere; and no store that may alias the second of two loads with the same dependency
is executed after the last execution of the first, if the first dominates the second. -/
theorem analyze_sound (answers : Answers) (hgraph : graph.Reducible) :
    ∃ dependency, answers.analyze graph = some dependency ∧
      (∀ ins, graph.Has ins → ins.IsLoad → ∃ dep, dependency ins.id = some dep ∧
        (dep < ins.id ∨ (dep = ins.id ∧ dep = graph.firstInstruction 0) ∨
          ∃ u, graph.IsLoop ins.block u ∧ dep = graph.lastIns ins.block)) ∧
      (∀ ins dep, graph.Has ins → ins.IsLoad → dependency ins.id = some dep → ∀ h u, graph.InLoop h u ins →
        ¬ (graph.start h ≤ dep ∧ dep ≤ graph.lastIns u) → answers.AliasFree graph h u ins) ∧
      (∀ d₁ d₂, graph.Has d₁ → d₁.IsLoad → graph.Has d₂ → d₂.IsLoad → dependency d₁.id = dependency d₂.id →
        Dominates graph.Step graph.IsEntry d₁.id d₂.id →
        ∀ p q, Walk graph.Step graph.IsEntry d₂.id (q ++ d₁.id :: p) → d₁.id ∉ q →
          ∀ st, answers.Aliases graph d₂ st → st.id ∉ q) := by
  obtain ⟨s, hs, hinv⟩ := exists_foldlM answers hgraph le_rfl
  have haccounts (ins : MInstruction) (hins : graph.Has ins) (hload : ins.IsLoad) :
      ∃ dep, s.dependency ins.id = some dep ∧ answers.Accounts graph ins dep := by
    obtain ⟨dep, hdep, hor⟩ := hinv.load ins hins hload (hins.id_lt_start.2 hins.1)
    exact ⟨dep, hdep, hor.imp id fun ⟨h, u, _, hfixed⟩ => ⟨h, u, hfixed⟩⟩
  refine ⟨s.dependency, by rw [analyze, hs]; rfl, fun ins hins hload => ?_, ?_, ?_⟩
  · obtain ⟨dep, hdep, hacc⟩ := haccounts ins hins hload
    exact ⟨dep, hdep, hacc.lt_or hgraph hins⟩
  · intro ins dep hins hload hdep h u hloop hout
    obtain ⟨dep', hdep', hacc⟩ := haccounts ins hins hload
    cases hdep.symm.trans hdep'
    exact hacc.aliasFree hgraph hins hloop hout
  · intro d₁ d₂ hd₁ hl₁ hd₂ hl₂ heq hdom p q hwalk hq st hst hmem
    obtain ⟨dep, hdep₁, hacc₁⟩ := haccounts d₁ hd₁ hl₁
    obtain ⟨dep', hdep₂, hacc₂⟩ := haccounts d₂ hd₂ hl₂
    cases (hdep₁.symm.trans heq).trans hdep₂
    obtain ⟨l₁, l₂, hl, hmem₁, ht₁, ht₂⟩ := (Trail.of_walk hwalk).exists_of_mem (List.mem_reverse.2 hmem)
    have hnot : d₁.id ∉ l₁ ++ l₂ := hl ▸ fun hin => hq (List.mem_reverse.1 hin)
    exact not_aliases hgraph hdom ht₁ ht₂ hmem₁ hnot hd₁ hd₂ hl₂ hacc₁ hacc₂ hst

/-! ## A load that depends on what comes after it -/

/-- An access to all categories of memory. -/
def access (isStore : Bool) : Instruction := ⟨⟨fun _ => true, isStore⟩, false⟩

/-- A loop whose header loads and whose other block stores. -/
def storeLoop : Graph := ⟨[⟨0, [], [], [1], false⟩, ⟨0, [access false], [0, 2], [2, 3], true⟩,
  ⟨0, [access true], [1], [1], false⟩, ⟨0, [], [1], [], false⟩]⟩

lemma storeLoop_isLoop : ∀ h < 4, ∀ u < 4, storeLoop.IsLoop h u → h = 1 ∧ u = 2 := by decide

lemma storeLoop_reducible : storeLoop.Reducible where
  nonempty := by decide
  successor_lt := by decide
  predecessor := by decide
  reversePostorder := by decide
  backedge := by decide
  header := by decide
  interval := by decide
  nested h hh u hu h' hh' u' hu' hloop hloop' := by
    obtain ⟨rfl, rfl⟩ := storeLoop_isLoop h hh u hu hloop
    obtain ⟨rfl, rfl⟩ := storeLoop_isLoop h' hh' u' hu' hloop'
    decide
  entered h hh u hu hloop := by
    obtain ⟨rfl, rfl⟩ := storeLoop_isLoop h hh u hu hloop
    decide
  root h hh u hu hloop := by
    obtain ⟨rfl, rfl⟩ := storeLoop_isLoop h hh u hu hloop
    decide

def anyAlias : Answers := ⟨fun _ _ => true, fun _ _ => true⟩

/-- The load of the header depends on the last instruction of the header. -/
theorem exists_dependency_above : ¬ ∀ (graph : Graph) (answers : Answers), graph.Reducible →
    ∀ dependency, answers.analyze graph = some dependency → ∀ ins, graph.Has ins → ins.IsLoad →
      ∀ dep, dependency ins.id = some dep → dep < ins.id := by
  intro hall
  have hdep : (anyAlias.analyze storeLoop).map (fun dependency => dependency 1) = some (some 2) := by decide
  obtain ⟨dependency, hrun, hdep⟩ := Option.map_eq_some_iff.1 hdep
  have hins : storeLoop.Has ⟨access false, 1, 1⟩ := ⟨by decide, mem_instructions.2 ⟨0, by decide, rfl⟩⟩
  have := hall storeLoop anyAlias storeLoop_reducible dependency hrun _ hins (by decide) 2 hdep
  exact absurd this (by decide)

theorem analyze_sound_storeLoop : ∃ dependency, anyAlias.analyze storeLoop = some dependency ∧
    (∀ ins, storeLoop.Has ins → ins.IsLoad → ∃ dep, dependency ins.id = some dep ∧
      (dep < ins.id ∨ (dep = ins.id ∧ dep = storeLoop.firstInstruction 0) ∨
        ∃ u, storeLoop.IsLoop ins.block u ∧ dep = storeLoop.lastIns ins.block)) := by
  obtain ⟨dependency, hrun, hdep, -⟩ := analyze_sound anyAlias storeLoop_reducible
  exact ⟨dependency, hrun, hdep⟩

end SpiderMonkey.AliasAnalysis
