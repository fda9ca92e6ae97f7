import SpiderMonkey.Jit.AliasAnalysis

/-!
# The graphs of alias analysis

Runs of a graph go from instruction to instruction, and from the last instruction of a block to the start of
a successor.  The numbers of a reducible graph whose loops are intervals of blocks have loops that are
intervals (`Reducible.loopIntervals`).  If a block does not reach another one by the cheap test, a run
between them passes the header of a loop with both (`Reducible.exists_header_of_not_mightReach`).
-/

open Dominance

namespace SpiderMonkey.AliasAnalysis.Graph

variable (graph : Graph)

/-! ## Numbers -/

lemma start_succ (b : ℕ) : graph.start (b + 1) = graph.lastIns b + 1 := rfl

lemma start_le_firstInstruction (b : ℕ) : graph.start b ≤ graph.firstInstruction b := Nat.le_add_right _ _

lemma firstInstruction_le_lastIns (b : ℕ) : graph.firstInstruction b ≤ graph.lastIns b := Nat.le_add_right _ _

lemma start_le_lastIns (b : ℕ) : graph.start b ≤ graph.lastIns b :=
  (graph.start_le_firstInstruction b).trans (graph.firstInstruction_le_lastIns b)

lemma start_strictMono : StrictMono graph.start :=
  strictMono_nat_of_lt_succ fun b => Nat.lt_succ_of_le (graph.start_le_lastIns b)

lemma lastIns_lt_start {b c : ℕ} (h : b < c) : graph.lastIns b < graph.start c := graph.start_strictMono.monotone h

lemma firstInstruction_lt {b c : ℕ} (h : b < c) : graph.firstInstruction b < graph.firstInstruction c :=
  (graph.firstInstruction_le_lastIns b).trans_lt
    ((graph.lastIns_lt_start h).trans_le (graph.start_le_firstInstruction c))

/-- The number is one of the block. -/
def InBlock (b i : ℕ) : Prop := graph.start b ≤ i ∧ i ≤ graph.lastIns b

variable {graph} {b c i j : ℕ}

lemma InBlock.start_le_iff (h : graph.InBlock b i) : graph.start c ≤ i ↔ c ≤ b := by
  refine ⟨fun hle => ?_, fun hle => (graph.start_strictMono.monotone hle).trans h.1⟩
  by_contra hlt
  have := graph.lastIns_lt_start (not_le.1 hlt)
  have := h.2
  omega

lemma InBlock.le_lastIns_iff (h : graph.InBlock b i) : i ≤ graph.lastIns c ↔ b ≤ c := by
  refine ⟨fun hle => ?_, fun hle => ?_⟩
  · by_contra hlt
    have := graph.lastIns_lt_start (not_le.1 hlt)
    have := h.1
    omega
  · obtain rfl | hlt := hle.eq_or_lt
    · exact h.2
    · exact h.2.trans ((graph.lastIns_lt_start hlt).le.trans (graph.start_le_lastIns c))

lemma InBlock.lt (h : graph.InBlock b i) (h' : graph.InBlock c j) (hlt : b < c) : i < j :=
  h.2.trans_lt ((graph.lastIns_lt_start hlt).trans_le h'.1)

lemma InBlock.eq (h : graph.InBlock b i) (h' : graph.InBlock c i) : b = c :=
  le_antisymm (h.le_lastIns_iff.1 h'.2) (h'.le_lastIns_iff.1 h.2)

lemma inBlock_start (b : ℕ) : graph.InBlock b (graph.start b) := ⟨le_rfl, graph.start_le_lastIns b⟩

lemma inBlock_lastIns (b : ℕ) : graph.InBlock b (graph.lastIns b) := ⟨graph.start_le_lastIns b, le_rfl⟩

lemma exists_inBlock {n : ℕ} (hi : i < graph.start n) : ∃ b < n, graph.InBlock b i := by
  induction n with
  | zero => exact absurd hi (Nat.not_lt_zero i)
  | succ n ih =>
    by_cases hlt : i < graph.start n
    · obtain ⟨b, hb, hin⟩ := ih hlt
      exact ⟨b, hb.trans (Nat.lt_succ_self n), hin⟩
    · rw [start_succ] at hi
      exact ⟨n, Nat.lt_succ_self n, not_lt.1 hlt, Nat.lt_succ_iff.1 hi⟩

/-! ## Instructions -/

lemma mem_instructions {ins : MInstruction} : ins ∈ graph.instructions b ↔
    ∃ k, ∃ h : k < (graph.block b).instructions.length,
      ins = ⟨(graph.block b).instructions[k], graph.firstInstruction b + k, b⟩ := by
  simp [instructions, eq_comm]

variable (graph) in
/-- An instruction of the graph that is not the last of its block. -/
def Has (ins : MInstruction) : Prop := ins.block < graph.numBlocks ∧ ins ∈ graph.instructions ins.block

lemma block_of_mem {ins : MInstruction} (h : ins ∈ graph.instructions b) : ins.block = b := by
  obtain ⟨k, hk, rfl⟩ := mem_instructions.1 h
  rfl

lemma bounds_of_mem {ins : MInstruction} (h : ins ∈ graph.instructions b) :
    graph.firstInstruction b ≤ ins.id ∧ ins.id < graph.lastIns b := by
  obtain ⟨k, hk, rfl⟩ := mem_instructions.1 h
  exact ⟨Nat.le_add_right _ _, Nat.add_lt_add_left hk _⟩

namespace Has

variable {ins ins' : MInstruction}

lemma bounds (h : graph.Has ins) :
    graph.firstInstruction ins.block ≤ ins.id ∧ ins.id < graph.lastIns ins.block := bounds_of_mem h.2

lemma inBlock (h : graph.Has ins) : graph.InBlock ins.block ins.id :=
  ⟨(graph.start_le_firstInstruction _).trans h.bounds.1, h.bounds.2.le⟩

lemma eq_of_id (h : graph.Has ins) (h' : graph.Has ins') (hid : ins.id = ins'.id) : ins = ins' := by
  have hblock : ins.block = ins'.block := h.inBlock.eq (hid ▸ h'.inBlock)
  obtain ⟨k, hk, hins⟩ := mem_instructions.1 h.2
  obtain ⟨k', hk', hins'⟩ := mem_instructions.1 (hblock ▸ h'.2)
  have hkk' : k = k' := by
    rw [hins, hins'] at hid
    exact Nat.add_left_cancel hid
  subst hkk'
  exact hins.trans hins'.symm

/-- The first instruction of a block separates its instructions from those before. -/
lemma firstInstruction_le_iff (h : graph.Has ins) : graph.firstInstruction c ≤ ins.id ↔ c ≤ ins.block := by
  constructor
  · exact fun hle => h.inBlock.start_le_iff.1 ((graph.start_le_firstInstruction c).trans hle)
  · intro hle
    obtain rfl | hlt := hle.eq_or_lt
    · exact h.bounds.1
    · exact (graph.firstInstruction_lt hlt).le.trans h.bounds.1

end Has

/-! ## Loops -/

variable (graph)

/-- The last instruction of `u` is the back edge of the loop with the header `h`. -/
def IsLoop (h u : ℕ) : Prop :=
  h < graph.numBlocks ∧ u < graph.numBlocks ∧ graph.isLoopBackedge u = true ∧
    (graph.block u).successors.getLast? = some h

instance (h u : ℕ) : Decidable (graph.IsLoop h u) := inferInstanceAs (Decidable (_ ∧ _))

/-- A reducible graph in reverse postorder, whose loops are nested intervals of blocks. -/
structure Reducible : Prop where
  nonempty : 0 < graph.numBlocks
  successor_lt : ∀ b < graph.numBlocks, ∀ s ∈ (graph.block b).successors, s < graph.numBlocks
  predecessor : ∀ b < graph.numBlocks, ∀ p ∈ (graph.block b).predecessors,
    p < graph.numBlocks ∧ b ∈ (graph.block p).successors
  /-- A block that is no root comes after some predecessor. -/
  reversePostorder : ∀ b < graph.numBlocks, (graph.block b).predecessors = [] ∨
    ∃ p ∈ (graph.block b).predecessors, p < b
  /-- Only back edges lead back. -/
  backedge : ∀ b < graph.numBlocks, ∀ s ∈ (graph.block b).successors, s ≤ b → graph.IsLoop s b
  header : ∀ h < graph.numBlocks, (graph.block h).isLoopHeader = true → ∃ u < graph.numBlocks, graph.IsLoop h u
  interval : ∀ h < graph.numBlocks, ∀ u < graph.numBlocks, graph.IsLoop h u → h ≤ u
  nested : ∀ h < graph.numBlocks, ∀ u < graph.numBlocks, ∀ h' < graph.numBlocks, ∀ u' < graph.numBlocks,
    graph.IsLoop h u → graph.IsLoop h' u' → u < h' ∨ u' < h ∨ (h ≤ h' ∧ u' ≤ u) ∨ (h' ≤ h ∧ u ≤ u')
  /-- A loop is entered at its header only. -/
  entered : ∀ h < graph.numBlocks, ∀ u < graph.numBlocks, graph.IsLoop h u →
    ∀ p < graph.numBlocks, ∀ b ∈ (graph.block p).successors, h ≤ b → b ≤ u → ¬ (h ≤ p ∧ p ≤ u) → b = h
  root : ∀ h < graph.numBlocks, ∀ u < graph.numBlocks, graph.IsLoop h u →
    ∀ b < graph.numBlocks, (graph.block b).predecessors = [] → ¬ (h ≤ b ∧ b ≤ u)

/-! ## Runs -/

/-- From one number to the next in a run. -/
def Step (i j : ℕ) : Prop := ∃ b < graph.numBlocks, graph.InBlock b i ∧ ((i < graph.lastIns b ∧ j = i + 1) ∨
    (i = graph.lastIns b ∧ ∃ s ∈ (graph.block b).successors, j = graph.start s))

/-- A run starts at the start of a block without predecessors. -/
def IsEntry (i : ℕ) : Prop :=
  ∃ b < graph.numBlocks, (graph.block b).predecessors = [] ∧ i = graph.start b

/-- The numbers of the header's start and of the back edge. -/
def LoopNumbers (i j : ℕ) : Prop := ∃ h u, graph.IsLoop h u ∧ i = graph.start h ∧ j = graph.lastIns u

variable {graph}

lemma step_cases (hb : graph.InBlock b i) (h : graph.Step i j) : (i < graph.lastIns b ∧ j = i + 1) ∨
    (i = graph.lastIns b ∧ ∃ s ∈ (graph.block b).successors, j = graph.start s) := by
  obtain ⟨b', -, hb', h⟩ := h
  obtain rfl := hb.eq hb'
  exact h

/-- A run that leaves a block comes to the start of a successor. -/
lemma exists_successor {l : List ℕ} (ht : Trail graph.Step i l j) (hi : graph.InBlock b i)
    (hj : ¬ graph.InBlock b j) : ∃ s ∈ (graph.block b).successors, ∃ l₁ l₂,
      l = l₁ ++ graph.start s :: l₂ ∧ Trail graph.Step (graph.start s) l₂ j := by
  induction ht with
  | nil => exact absurd hi hj
  | @cons i k j l he ht ih =>
    obtain ⟨hlt, rfl⟩ | ⟨-, s, hs, rfl⟩ := step_cases hi he
    · have hk : graph.InBlock b (i + 1) := ⟨hi.1.trans (Nat.le_succ i), hlt⟩
      obtain ⟨s, hs, l₁, l₂, rfl, ht'⟩ := ih hk hj
      exact ⟨s, hs, (i + 1) :: l₁, l₂, rfl, ht'⟩
    · exact ⟨s, hs, [], l, rfl, ht⟩

namespace Reducible

variable (hgraph : graph.Reducible)
include hgraph

lemma predecessors_zero : (graph.block 0).predecessors = [] := by
  obtain hnil | ⟨p, -, hp⟩ := hgraph.reversePostorder 0 hgraph.nonempty
  · exact hnil
  · omega

lemma header_pos {h u : ℕ} (hloop : graph.IsLoop h u) : 0 < h := by
  by_contra hzero
  obtain rfl := Nat.eq_zero_of_not_pos hzero
  exact hgraph.root 0 hloop.1 u hloop.2.1 hloop 0 hloop.1 hgraph.predecessors_zero ⟨le_rfl, Nat.zero_le u⟩

theorem loopIntervals : LoopIntervals (graph.start graph.numBlocks) graph.Step graph.IsEntry graph.LoopNumbers where
  lt i j h := by
    obtain ⟨b, hb, hi, ⟨hlt, rfl⟩ | ⟨rfl, s, hs, rfl⟩⟩ := h
    · have hlast := graph.lastIns_lt_start hb
      exact ⟨by omega, by omega⟩
    · exact ⟨graph.lastIns_lt_start hb, graph.start_strictMono (hgraph.successor_lt b hb s hs)⟩
  edge i j h := by
    obtain ⟨b, hb, hi, ⟨hlt, rfl⟩ | ⟨rfl, s, hs, rfl⟩⟩ := h
    · exact .inl (Nat.lt_succ_self i)
    · by_cases hsb : s ≤ b
      · exact .inr ⟨s, b, hgraph.backedge b hb s hs hsb, rfl, rfl⟩
      · exact .inl (graph.lastIns_lt_start (not_le.1 hsb))
  forward j hj := by
    obtain ⟨b, hb, hin⟩ := exists_inBlock hj
    obtain heq | hlt := hin.1.eq_or_lt
    · obtain hnil | ⟨p, hp, hpb⟩ := hgraph.reversePostorder b hb
      · exact .inl ⟨b, hb, hnil, heq.symm⟩
      · obtain ⟨hpn, hmem⟩ := hgraph.predecessor b hb p hp
        exact .inr ⟨graph.lastIns p, heq ▸ graph.lastIns_lt_start hpb, p, hpn, inBlock_lastIns p,
          .inr ⟨rfl, b, hmem, heq.symm⟩⟩
    · have hlast := hin.2
      exact .inr ⟨j - 1, by omega, b, hb, ⟨by omega, by omega⟩, .inl ⟨by omega, by omega⟩⟩
  loop_le h u := by
    rintro ⟨hb, ub, hloop, rfl, rfl⟩
    have hle := hgraph.interval hb hloop.1 ub hloop.2.1 hloop
    exact ⟨(inBlock_start hb).le_lastIns_iff.2 hle, graph.lastIns_lt_start hloop.2.1⟩
  entered h u := by
    rintro ⟨hb, ub, hloop, rfl, rfl⟩ i j ⟨b, hbn, hi, ⟨hlt, rfl⟩ | ⟨rfl, s, hs, rfl⟩⟩ hj hju hout
    · omega
    · rw [(inBlock_start s).start_le_iff] at hj
      rw [(inBlock_start s).le_lastIns_iff] at hju
      rw [(inBlock_lastIns b).start_le_iff, (inBlock_lastIns b).le_lastIns_iff] at hout
      rw [hgraph.entered hb hloop.1 ub hloop.2.1 hloop b hbn s hs hj hju hout]
  root h u := by
    rintro ⟨hb, ub, hloop, rfl, rfl⟩ r ⟨b, hbn, hnil, rfl⟩ hr hru
    rw [(inBlock_start b).start_le_iff] at hr
    rw [(inBlock_start b).le_lastIns_iff] at hru
    exact absurd ⟨hr, hru⟩ (hgraph.root hb hloop.1 ub hloop.2.1 hloop b hbn hnil)

/-- A run between two blocks that the test finds on different ways passes the header of a loop with both. -/
theorem exists_header_of_not_mightReach {fuel src dest : ℕ} {l : List ℕ}
    (hreach : graph.blockMightReach fuel src dest = false) (hfuel : dest < src + fuel) (hle : src ≤ dest)
    (hsrc : src < graph.numBlocks) (hi : graph.InBlock src i) (hj : graph.InBlock dest j)
    (ht : Trail graph.Step i l j) :
    ∃ h u, graph.LoopNumbers h u ∧ h ≤ i ∧ h ≤ j ∧ j ≤ u ∧ h ∈ l := by
  have hE := hgraph.loopIntervals
  induction fuel generalizing src i l with
  | zero => omega
  | succ fuel ih =>
    rw [blockMightReach, if_neg (not_lt.2 hle)] at hreach
    split_ifs at hreach with heq
    have hnot : ¬ graph.InBlock src j := fun hin => heq (hin.eq hj)
    obtain ⟨s, hs, l₁, l₂, rfl, ht₂⟩ := exists_successor ht hi hnot
    have hsn := hgraph.successor_lt src hsrc s hs
    have hedge : graph.Step (graph.lastIns src) (graph.start s) :=
      ⟨src, hsrc, inBlock_lastIns src, .inr ⟨rfl, s, hs, rfl⟩⟩
    split at hreach
    next hnil => simp [hnil] at hs
    next successor hsucc =>
      obtain rfl : s = successor := by simpa [hsucc] using hs
      split_ifs at hreach with hback
      -- a loop that is entered here has the successor as its header
      have hentered {h u : ℕ} (hloop : graph.LoopNumbers h u) (hhs : h ≤ graph.start s)
          (hsu : graph.start s ≤ u) (hhi : ¬ h ≤ i) : graph.start s = h := by
        obtain ⟨hb, ub, hloop', rfl, rfl⟩ := id hloop
        refine hE.entered _ _ hloop _ _ hedge hhs hsu fun hin => hhi ?_
        rw [hi.start_le_iff]
        exact (inBlock_lastIns src).start_le_iff.1 hin.1
      by_cases hsd : s ≤ dest
      · obtain ⟨h, u, hloop, hhs, hhj, hju, hmem⟩ := ih hreach (by omega) hsd hsn (inBlock_start s) ht₂
        refine ⟨h, u, hloop, ?_, hhj, hju, List.mem_append_right _ (List.mem_cons_of_mem _ hmem)⟩
        by_contra hhi
        have hsj := hj.start_le_iff.2 hsd
        have heq := hentered hloop hhs (hsj.trans hju) hhi
        -- the destination is reached from the header over greater numbers
        obtain ⟨l', ht', hl'⟩ := hE.exists_trail hloop hhj hju
        obtain ⟨h', u', -, hh's, -, -, hmem'⟩ := ih hreach (by omega) hsd hsn (inBlock_start s) (heq ▸ ht')
        have := (hl' h' hmem').1
        omega
      · have hjs := hj.lt (inBlock_start s) (not_le.1 hsd)
        have hne : l₂ ≠ [] := by
          rintro rfl
          cases ht₂
          omega
        obtain ⟨h, u, hloop, hhj, hsu, hmem⟩ := hE.exists_header ht₂ hne hjs.le
        refine ⟨h, u, hloop, ?_, hhj, by omega, List.mem_append_right _ (List.mem_cons_of_mem _ hmem)⟩
        by_contra hhi
        have := hentered hloop (by omega) hsu hhi
        omega
    next => exact absurd hreach Bool.noConfusion

end Reducible

end SpiderMonkey.AliasAnalysis.Graph
