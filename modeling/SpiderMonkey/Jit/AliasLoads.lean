import SpiderMonkey.Jit.AliasGraph

/-!
# The invariant of alias analysis

What is known when the blocks below `b` have been visited: the lists of stores hold the stores so far, the
kept loops are those whose back edge is still to come, and each load has a dependency that accounts for the
stores before it and for the loops that have ended (`Inv`).
-/

namespace SpiderMonkey.AliasAnalysis

open List

/-! ## Lists of stores -/

/-- Last stores first. -/
def Sorted (l : List Store) : Prop := l.Pairwise fun a b => b.id ≤ a.id

namespace Sorted

variable {l : List Store} {p : Store → Bool} {store : Store} {k : ℕ}

/-- The first store that is found comes last in the program. -/
lemma exists_find (hl : Sorted l) (hmem : store ∈ l) (hp : p store = true) :
    ∃ found, l.find? p = some found ∧ store.id ≤ found.id := by
  induction l with
  | nil => exact absurd hmem not_mem_nil
  | cons a l ih =>
    obtain ⟨hle, hl⟩ := pairwise_cons.1 hl
    by_cases ha : p a = true
    · refine ⟨a, find?_cons_of_pos ha, ?_⟩
      obtain rfl | hmem := mem_cons.1 hmem
      · exact le_rfl
      · exact hle store hmem
    · obtain rfl | hmem := mem_cons.1 hmem
      · exact absurd hp ha
      · obtain ⟨found, hfound, hle⟩ := ih hl hmem
        simp [ha, hfound, hle]

lemma mem_takeWhile (hl : Sorted l) :
    store ∈ l.takeWhile (fun store => decide (k ≤ store.id)) ↔ store ∈ l ∧ k ≤ store.id := by
  induction l with
  | nil => simp
  | cons a l ih =>
    obtain ⟨hle, hl⟩ := pairwise_cons.1 hl
    by_cases ha : k ≤ a.id
    · simp only [takeWhile_cons, ha, decide_true, if_true, mem_cons, ih hl]
      constructor
      · rintro (rfl | ⟨hmem, hk⟩)
        · simp [ha]
        · exact ⟨.inr hmem, hk⟩
      · rintro ⟨rfl | hmem, hk⟩
        · exact .inl rfl
        · exact .inr ⟨hmem, hk⟩
    · simp only [takeWhile_cons, ha, decide_false, Bool.false_eq_true, if_false]
      refine ⟨nofun, fun ⟨hmem, hk⟩ => ?_⟩
      obtain rfl | hmem := mem_cons.1 hmem
      · omega
      · exact absurd (hk.trans (hle store hmem)) ha

end Sorted

/-- The greatest number that is found, or the given one. -/
lemma foldl_last {α : Type*} (f : α → Option Store) (l : List α) (first : ℕ) :
    let last := l.foldl (fun last c =>
      match f c with
      | none => last
      | some store => if last < store.id then store.id else last) first
    first ≤ last ∧ (last = first ∨ ∃ c ∈ l, ∃ store, f c = some store ∧ last = store.id) ∧
      ∀ c ∈ l, ∀ store, f c = some store → store.id ≤ last := by
  induction l generalizing first with
  | nil => exact ⟨le_rfl, .inl rfl, nofun⟩
  | cons a l ih =>
    rw [foldl_cons]
    cases hf : f a with
    | none =>
      obtain ⟨hle, hor, hall⟩ := ih first
      refine ⟨hle, hor.imp id fun ⟨c, hc, h⟩ => ⟨c, mem_cons_of_mem a hc, h⟩, fun c hc store h => ?_⟩
      obtain rfl | hc := mem_cons.1 hc
      · rw [hf] at h
        cases h
      · exact hall c hc store h
    | some found =>
      dsimp only
      obtain ⟨hle, hor, hall⟩ := ih (if first < found.id then found.id else first)
      have hfirst : first ≤ if first < found.id then found.id else first := by split_ifs <;> omega
      have hfound : found.id ≤ if first < found.id then found.id else first := by split_ifs <;> omega
      refine ⟨hfirst.trans hle, ?_, fun c hc store h => ?_⟩
      · obtain heq | ⟨c, hc, h⟩ := hor
        · by_cases hlt : first < found.id
          · exact .inr ⟨a, mem_cons_self, found, hf, heq.trans (if_pos hlt)⟩
          · exact .inl (heq.trans (if_neg hlt))
        · exact .inr ⟨c, mem_cons_of_mem a hc, h⟩
      · obtain rfl | hc := mem_cons.1 hc
        · cases hf.symm.trans h
          omega
        · exact hall c hc store h

namespace AliasSet

variable {set : AliasSet}

lemma mem_categories {c : Fin NumCategories} : c ∈ set.categories ↔ set.flags c = true := by
  simp [categories]

end AliasSet

/-! ## What a dependency accounts for -/

variable (answers : Answers) (graph : Graph)

/-- The store may alias the load. -/
def Answers.Aliases (ins st : MInstruction) : Prop := graph.Has st ∧ st.IsStore ∧
  (∃ c, ins.aliasSet.flags c = true ∧ st.aliasSet.flags c = true) ∧ answers.mayAlias ins.id st.id = true

/-- No store of the loop may alias the load. -/
def Answers.AliasFree (h u : ℕ) (ins : MInstruction) : Prop :=
  ∀ st, answers.Aliases graph ins st → h ≤ st.block → ¬ st.block ≤ u

/-- The loop contains the instruction. -/
def Graph.InLoop (h u : ℕ) (ins : MInstruction) : Prop := graph.IsLoop h u ∧ h ≤ ins.block ∧ ins.block ≤ u

/-- A dependency that accounts for the stores before the load. -/
structure Answers.InitialDep (ins : MInstruction) (dep : ℕ) : Prop where
  source : dep = graph.firstInstruction 0 ∨ ∃ st, graph.Has st ∧ st.IsStore ∧ st.id < ins.id ∧ dep = st.id
  le : ∀ st, answers.Aliases graph ins st → st.id < ins.id →
    graph.blockMightReach (ins.block + 1) st.block ins.block = true → st.id ≤ dep

/-- The dependency comes before the loops below `lo` that contain the load only if none of their stores may
alias the load. -/
def Answers.LoopsFree (lo : ℕ) (ins : MInstruction) (dep : ℕ) : Prop :=
  ∀ h u, graph.InLoop h u ins → u < lo → dep < graph.firstInstruction h → answers.AliasFree graph h u ins

/-- A dependency on a store, or on the first instruction. -/
structure Answers.Open (lo : ℕ) (ins : MInstruction) (dep : ℕ) : Prop where
  initial : answers.InitialDep graph ins dep
  free : answers.LoopsFree graph lo ins dep

/-- A dependency on the header of the loop from `h` to `u`. -/
structure Answers.Fixed (h u : ℕ) (ins : MInstruction) (dep : ℕ) : Prop where
  inLoop : graph.InLoop h u ins
  eq : dep = graph.lastIns h
  before : ∃ dep₀, dep₀ < graph.firstInstruction h ∧ answers.Open graph u ins dep₀

/-! ## The invariant -/

def State.Kept (s : State) (h : ℕ) : Prop := h ∈ s.loops.map LoopAliasInfo.loopHeader

/-- The header is that of the innermost kept loop with the instruction. -/
def State.Innermost (s : State) (ins : MInstruction) (h : ℕ) : Prop :=
  h ≤ ins.block ∧ ∀ h', s.Kept h' → h' ≤ ins.block → h' ≤ h

/-- The headers before `hi` have been entered, the loops that end before `lo` have been left, and the
instructions with numbers below `m` have been visited. -/
structure Answers.Inv (hi lo m : ℕ) (s : State) : Prop where
  mem_stores : ∀ c store, store ∈ s.stores c ↔ store = ⟨graph.firstInstruction 0, 0⟩ ∨
    ∃ st, graph.Has st ∧ st.IsStore ∧ st.aliasSet.flags c = true ∧ st.id < m ∧ store = ⟨st.id, st.block⟩
  sorted : ∀ c, Sorted (s.stores c)
  headers : (s.loops.map LoopAliasInfo.loopHeader).Pairwise (· > ·)
  kept : ∀ h, s.Kept h ↔ h < hi ∧ ∃ u, graph.IsLoop h u ∧ lo ≤ u
  load : ∀ ins, graph.Has ins → ins.IsLoad → ins.id < m → ∃ dep, s.dependency ins.id = some dep ∧
    (answers.Open graph lo ins dep ∨ ∃ h u, u < lo ∧ answers.Fixed graph h u ins dep)
  mem_invariantLoads : ∀ info ∈ s.loops, ∀ ins, ins ∈ info.invariantLoads ↔
    graph.Has ins ∧ ins.IsLoad ∧ ins.id < m ∧ s.Innermost ins info.loopHeader ∧
      ∃ dep, s.dependency ins.id = some dep ∧ dep < graph.firstInstruction info.loopHeader

end SpiderMonkey.AliasAnalysis
