import SpiderMonkey.Lib.Dominance
import SpiderMonkey.Lib.Preorder

/-!
# The dominator tree of a control-flow graph

`ComputeImmediateDominators` is the iteration of Cooper, Harvey and Kennedy for graphs with several
roots: the candidate of each block is the closest common node of its predecessors' chains of
candidates, and a block whose predecessors have no common node becomes its own candidate for good.
Blocks are given by their numbers in reverse postorder.

Two facts carry the proof.  Candidates are kept so that no dominator is ever lost from a chain
(`CandidatesInv.dominators`), although chains are not those of any fixed subgraph, and so that each
update replaces a candidate by a node of its own chain (`CandidatesInv.common`), which bounds the
number of updates.
-/

open Dominance

namespace SpiderMonkey

open List Function Option

/-- The blocks of a graph, numbered in reverse postorder. -/
structure MIRGraph where
  numBlocks : ℕ
  predecessors : ℕ → List ℕ
  entryBlock : ℕ
  osrBlock : Option ℕ
  predecessors_lt : ∀ b < numBlocks, ∀ p ∈ predecessors b, p < numBlocks
  entryBlock_lt : entryBlock < numBlocks
  osrBlock_lt : ∀ b ∈ osrBlock, b < numBlocks
  first_lt : ∀ b < numBlocks, ∀ p ∈ (predecessors b).head?, p < b

/-- The closest common node of two chains: `none` if a null pointer is followed or fuel runs out,
`some none` for the empty intersection. -/
def intersectDominators (immediateDominator : ℕ → Option ℕ) : ℕ → ℕ → ℕ → Option (Option ℕ)
  | 0, _, _ => none
  | fuel + 1, finger1, finger2 =>
    if finger1 = finger2 then some (some finger1)
    else if finger2 < finger1 then
      match immediateDominator finger1 with
      | none => none
      | some idom =>
        if idom = finger1 then some none
        else intersectDominators immediateDominator fuel idom finger2
    else
      match immediateDominator finger2 with
      | none => none
      | some idom =>
        if idom = finger2 then some none
        else intersectDominators immediateDominator fuel finger1 idom

/-- The loop over the predecessors but the first. -/
def commonDominator (immediateDominator : ℕ → Option ℕ) : ℕ → List ℕ → Option (Option ℕ)
  | newIdom, [] => some (some newIdom)
  | newIdom, pred :: preds =>
    match immediateDominator pred with
    | none => commonDominator immediateDominator newIdom preds
    | some _ =>
      match intersectDominators immediateDominator (pred + newIdom + 1) pred newIdom with
      | none => none
      | some none => some none
      | some (some newIdom) => commonDominator immediateDominator newIdom preds

namespace MIRGraph

variable (graph : MIRGraph)

/-- One block of a pass; the flag is `changed`. -/
def visitBlock (block : ℕ) (s : (ℕ → Option ℕ) × Bool) : Option ((ℕ → Option ℕ) × Bool) :=
  if s.1 block = some block then some s
  else
    match graph.predecessors block with
    | [] => some (Function.update s.1 block (some block), s.2)
    | pred :: preds =>
      match commonDominator s.1 pred preds with
      | none => none
      | some none => some (Function.update s.1 block (some block), true)
      | some (some newIdom) =>
        if s.1 block = some newIdom then some s
        else some (Function.update s.1 block (some newIdom), true)

def visitBlocks : ℕ → (ℕ → Option ℕ) × Bool → Option ((ℕ → Option ℕ) × Bool)
  | 0, s => some s
  | k + 1, s => do
    let s ← visitBlocks k s
    graph.visitBlock k s

def iterateDominators : ℕ → (ℕ → Option ℕ) → Option (ℕ → Option ℕ)
  | 0, _ => none
  | fuel + 1, immediateDominator => do
    let s ← graph.visitBlocks graph.numBlocks (immediateDominator, false)
    if s.2 then iterateDominators fuel s.1 else some s.1

/-- The start block and an OSR block dominate themselves. -/
def rootDominators : ℕ → Option ℕ := fun b =>
  if b = graph.entryBlock ∨ graph.osrBlock = some b then some b else none

def computeImmediateDominators : Option (ℕ → Option ℕ) :=
  graph.iterateDominators (graph.numBlocks * (graph.numBlocks + 1) + 1) graph.rootDominators

/-! ## Dominance of blocks -/

def Edge (p b : ℕ) : Prop := b < graph.numBlocks ∧ p ∈ graph.predecessors b

/-- The blocks at which control may enter. -/
def IsRoot (b : ℕ) : Prop :=
  b < graph.numBlocks ∧ (b = graph.entryBlock ∨ graph.osrBlock = some b ∨ graph.predecessors b = [])

def Dominates (a b : ℕ) : Prop := Dominance.Dominates graph.Edge graph.IsRoot a b

/-- A node is common to the chains of those blocks that have a candidate. -/
def Common (up : ℕ → Option ℕ) (preds : List ℕ) (a : ℕ) : Prop :=
  ∀ p ∈ preds, up p ≠ none → Above up p a

end MIRGraph

/-! ## The closest common node -/

/-- The node whose chain has exactly the nodes with the property; if there is none, no node has it. -/
def Meet (up : ℕ → Option ℕ) (P : ℕ → Prop) : Option ℕ → Prop
  | some d => ∀ a, Above up d a ↔ P a
  | none => ∀ a, ¬P a

lemma Meet.congr {up : ℕ → Option ℕ} {P P' : ℕ → Prop} {r : Option ℕ} (h : Meet up P r)
    (hP : ∀ a, P a ↔ P' a) : Meet up P' r := by
  cases r with
  | none => exact fun a ha => h a ((hP a).mpr ha)
  | some d => exact fun a => (h a).trans (hP a)

section Meets

variable {up : ℕ → Option ℕ}

/-- Candidates have candidates. -/
def Closed (up : ℕ → Option ℕ) : Prop := ∀ b d, up b = some d → up d ≠ none

lemma Closed.above {up : ℕ → Option ℕ} (h : Closed up) {b a : ℕ} (hb : up b ≠ none)
    (ha : Above up b a) : up a ≠ none := by
  induction ha with
  | refl => exact hb
  | up hd _ _ ih => exact ih (h _ _ hd)

theorem intersectDominators_spec (hup : Descending up) (hclosed : Closed up) {fuel b c : ℕ}
    (hb : up b ≠ none) (hc : up c ≠ none) (hfuel : b + c < fuel) :
    ∃ r, intersectDominators up fuel b c = some r ∧ Meet up (fun a => Above up b a ∧ Above up c a) r := by
  induction fuel generalizing b c with
  | zero => exact absurd hfuel (Nat.not_lt_zero _)
  | succ fuel ih =>
    rw [intersectDominators]
    by_cases heq : b = c
    · subst heq
      rw [if_pos rfl]
      exact ⟨_, rfl, fun a => ⟨fun h => ⟨h, h⟩, fun h => h.1⟩⟩
    rw [if_neg heq]
    split_ifs
    · obtain ⟨d, hd⟩ := ne_none_iff_exists'.mp hb
      simp only [hd]
      by_cases hself : d = b
      · subst hself
        rw [if_pos rfl]
        refine ⟨_, rfl, fun a ha => ?_⟩
        have heq := ha.1.eq_of_self hd
        have hle := ha.2.le hup
        omega
      · rw [if_neg hself]
        have hdb := hup _ _ hd
        obtain ⟨r, hr, hmeet⟩ := ih (hclosed _ _ hd) hc (by omega)
        refine ⟨r, hr, hmeet.congr fun a => ?_⟩
        rw [Above.iff hd hself]
        refine ⟨fun h => ⟨.inr h.1, h.2⟩, fun h => ⟨h.1.resolve_left fun heq => ?_, h.2⟩⟩
        have hle := h.2.le hup
        omega
    · obtain ⟨d, hd⟩ := ne_none_iff_exists'.mp hc
      simp only [hd]
      by_cases hself : d = c
      · subst hself
        rw [if_pos rfl]
        refine ⟨_, rfl, fun a ha => ?_⟩
        have heq := ha.2.eq_of_self hd
        have hle := ha.1.le hup
        omega
      · rw [if_neg hself]
        have hdc := hup _ _ hd
        obtain ⟨r, hr, hmeet⟩ := ih hb (hclosed _ _ hd) (by omega)
        refine ⟨r, hr, hmeet.congr fun a => ?_⟩
        rw [Above.iff hd hself]
        refine ⟨fun h => ⟨h.1, .inr h.2⟩, fun h => ⟨h.1, h.2.resolve_left fun heq => ?_⟩⟩
        have hle := h.1.le hup
        omega

theorem commonDominator_spec (hup : Descending up) (hclosed : Closed up) {newIdom : ℕ}
    {preds : List ℕ} (hnew : up newIdom ≠ none) :
    ∃ r, commonDominator up newIdom preds = some r ∧
      Meet up (fun a => Above up newIdom a ∧ MIRGraph.Common up preds a) r := by
  induction preds generalizing newIdom with
  | nil => exact ⟨_, rfl, fun a => ⟨fun h => ⟨h, nofun⟩, fun h => h.1⟩⟩
  | cons pred preds ih =>
    rw [commonDominator]
    have hcons : ∀ a, MIRGraph.Common up (pred :: preds) a ↔
        (up pred ≠ none → Above up pred a) ∧ MIRGraph.Common up preds a := by
      intro a
      simp [MIRGraph.Common]
    cases hpred : up pred with
    | none =>
      simp [ih, hnew, hcons, hpred]
    | some x =>
      have hpred' : up pred ≠ none := by rw [hpred]; exact some_ne_none x
      obtain ⟨r, hr, hmeet⟩ := intersectDominators_spec hup hclosed hpred' hnew
        (Nat.lt_succ_self _)
      simp only [hr]
      cases r with
      | none =>
        refine ⟨none, rfl, fun a ha => hmeet a ⟨?_, ha.1⟩⟩
        exact ((hcons a).mp ha.2).1 hpred'
      | some d =>
        have hd : up d ≠ none := hclosed.above hpred' ((hmeet d).mp (.refl d)).1
        obtain ⟨r, hr', hmeet'⟩ := ih hd
        refine ⟨r, hr', hmeet'.congr fun a => ?_⟩
        rw [hcons, hmeet a]
        constructor
        · exact fun h => ⟨h.1.2, fun _ => h.1.1, h.2⟩
        · exact fun h => ⟨⟨h.2.1 hpred', h.1⟩, h.2.2⟩

end Meets

/-! ## One block -/

/-- What holds of the candidates in a pass that has come to block `i`. -/
structure CandidatesInv (graph : MIRGraph) (i : ℕ) (up : ℕ → Option ℕ) : Prop where
  descending : Descending up
  closed : Closed up
  lt : ∀ b, up b ≠ none → b < graph.numBlocks
  processed : ∀ b < i, up b ≠ none
  rootsSelf : ∀ b, b = graph.entryBlock ∨ graph.osrBlock = some b → up b = some b
  noPreds : ∀ b, graph.predecessors b = [] → ∀ d, up b = some d → d = b
  /-- A candidate leads to its block by larger blocks. -/
  detour : ∀ b d, up b = some d → ∀ a < d, Detour graph.Edge a d b
  /-- Dominators are on the chain. -/
  dominators : ∀ b, up b ≠ none → ∀ a, graph.Dominates a b → Above up b a
  /-- What the chains of the predecessors have in common is on the chain of the candidate. -/
  common : ∀ b d, up b = some d → d ≠ b → ∀ a, MIRGraph.Common up (graph.predecessors b) a → Above up d a
  /-- The candidate is on the first predecessor's chain, unless it has been taken from it since the
  pass has come past the candidate. -/
  first : ∀ b d, up b = some d → d ≠ b → ∃ p ps, graph.predecessors b = p :: ps ∧ (Above up p d ∨ (d < i ∧ i ≤ b))

namespace CandidatesInv

variable {graph : MIRGraph} {i : ℕ} {up : ℕ → Option ℕ}

lemma chain_detour (h : CandidatesInv graph i up) {b c a : ℕ} (hc : Above up b c) (ha : a < c) :
    Detour graph.Edge a c b := by
  induction hc with
  | refl => exact .refl
  | @up b d c hd _ hc ih =>
    have hle := hc.le h.descending
    exact (ih ha).trans (h.detour b d hd a (by omega))

/-- What a block's new candidate has to satisfy. -/
structure NewIdom (graph : MIRGraph) (i : ℕ) (up : ℕ → Option ℕ) (d : ℕ) : Prop where
  lt : i < graph.numBlocks
  le : d ≤ i
  closed : d ≠ i → up d ≠ none
  rootsSelf : i = graph.entryBlock ∨ graph.osrBlock = some i → d = i
  noPreds : graph.predecessors i = [] → d = i
  detour : ∀ a < d, Detour graph.Edge a d i
  dominators : ∀ a, graph.Dominates a i → a = i ∨ (d ≠ i ∧ Above up d a)
  above : up i ≠ none → Above up i d
  common : d ≠ i → ∀ a, MIRGraph.Common up (graph.predecessors i) a → Above up d a
  first : d ≠ i → ∃ p ps, graph.predecessors i = p :: ps ∧ p < i ∧ Above up p d

section Update

variable {d : ℕ}

variable (h : CandidatesInv graph i up)

include h

lemma descending_update (hd : NewIdom graph i up d) : Descending (Function.update up i (some d)) := by
  intro b e he
  by_cases hb : b = i
  · subst hb
    rw [update_self] at he
    cases he
    exact hd.le
  · rw [update_of_ne hb] at he
    exact h.descending b e he

/-- Chains only lose nodes. -/
lemma of_update (hd : NewIdom graph i up d) {b a : ℕ}
    (hb : up b ≠ none) (ha : Above (Function.update up i (some d)) b a) : Above up b a := by
  by_cases hi : up i = none
  · refine (Above.congr fun x hx => ?_).mp ha
    refine update_of_ne ?_ _ _
    rintro rfl
    exact h.closed.above hb hx hi
  · exact ha.of_update (hd.above hi)

lemma above_of_lt {b a : ℕ} (hb : b < i) : Above (Function.update up i (some d)) b a ↔ Above up b a :=
  Above.congr_of_lt h.descending hb

section

variable (hd : NewIdom graph i up d)

include hd

lemma above_update_self (hne : d ≠ i)
    {a : ℕ} (ha : Above up d a) : Above (Function.update up i (some d)) i a :=
  .up (update_self _ _ _) hne ((h.above_of_lt (lt_of_le_of_ne hd.le hne)).mpr ha)

lemma common_of_update {ps : List ℕ}
    {a : ℕ} (ha : MIRGraph.Common (Function.update up i (some d)) ps a) :
    MIRGraph.Common up ps a := by
  intro p hp hpne
  refine h.of_update hd hpne (ha p hp ?_)
  by_cases hpi : p = i
  · subst hpi
    simp
  · simp [hpi, hpne]

lemma dominators_update {b a : ℕ} (hb : Function.update up i (some d) b ≠ none) (ha : graph.Dominates a b) :
    Above (Function.update up i (some d)) b a := by
  have hself : ∀ a, graph.Dominates a i → Above (Function.update up i (some d)) i a := by
    intro a ha
    obtain rfl | ⟨hne, hda⟩ := hd.dominators a ha
    · exact .refl _
    · exact h.above_update_self hd hne hda
  by_cases hbi : b = i
  · subst hbi
    exact hself a ha
  · rw [update_of_ne hbi] at hb
    refine (h.dominators b hb a ha).update (fun hi => ?_) h.descending
    -- a dominator below `i` dominates `i`, since `i` leads around it to `b`
    by_cases hlt : a < i
    · exact .inl (hself a (ha.of_detour (h.chain_detour hi hlt)))
    · omega

lemma common_update {b e a : ℕ} (he : Function.update up i (some d) b = some e) (hne : e ≠ b)
    (ha : MIRGraph.Common (Function.update up i (some d)) (graph.predecessors b) a) :
    Above (Function.update up i (some d)) e a := by
  by_cases hbi : b = i
  · subst hbi
    rw [update_self] at he
    cases he
    exact (h.above_of_lt (lt_of_le_of_ne hd.le hne)).mpr
      (hd.common hne a (h.common_of_update hd ha))
  · rw [update_of_ne hbi] at he
    refine (h.common b e he hne a (h.common_of_update hd ha)).update (fun hi => ?_) h.descending
    have hie := hi.le h.descending
    obtain ⟨p, ps, hps, hp⟩ := h.first b e he hne
    have hpi : Above up p i := (hp.resolve_right (by omega)).trans hi
    have hblt := h.lt b (by rw [he]; exact some_ne_none e)
    have hpb : p < b := graph.first_lt b hblt p (by rw [hps]; rfl)
    have hp' : Function.update up i (some d) p ≠ none := by
      by_cases hpeq : p = i
      · subst hpeq
        simp
      · rw [update_of_ne hpeq]
        cases hpi with
        | refl => exact absurd rfl hpeq
        | up hx => rw [hx]; exact some_ne_none _
    have hpa := ha p (by rw [hps]; exact mem_cons_self) hp'
    have hpi' := @Above.update up i p i (some d) hpi (fun _ => .inr le_rfl) h.descending
    by_cases hle : a ≤ i
    · exact .inl (hpa.of_le hpi' hle (h.descending_update hd))
    · exact .inr (by omega)

lemma first_update {b e : ℕ} (he : Function.update up i (some d) b = some e) (hne : e ≠ b) :
    ∃ p ps, graph.predecessors b = p :: ps ∧ (Above (Function.update up i (some d)) p e ∨ (e < i + 1 ∧ i + 1 ≤ b)) := by
  by_cases hbi : b = i
  · subst hbi
    rw [update_self] at he
    cases he
    obtain ⟨p, ps, hps, hlt, hp⟩ := hd.first hne
    exact ⟨p, ps, hps, .inl ((h.above_of_lt hlt).mpr hp)⟩
  · rw [update_of_ne hbi] at he
    obtain ⟨p, ps, hps, hp | hp⟩ := h.first b e he hne
    · refine ⟨p, ps, hps, ?_⟩
      by_cases hlost : Above up p i ∧ e < i
      · have hblt := h.lt b (by rw [he]; exact some_ne_none e)
        have hpb : p < b := graph.first_lt b hblt p (by rw [hps]; rfl)
        have hip := hlost.1.le h.descending
        exact .inr ⟨by omega, by omega⟩
      · refine .inl (hp.update (fun hi => .inr ?_) h.descending)
        by_contra hlt
        exact hlost ⟨hi, by omega⟩
    · exact ⟨p, ps, hps, .inr ⟨by omega, by omega⟩⟩

theorem update : CandidatesInv graph (i + 1) (Function.update up i (some d)) where
  descending := h.descending_update hd
  closed := by
    intro b e he
    by_cases hei : e = i
    · subst hei
      simp
    · rw [update_of_ne hei]
      by_cases hbi : b = i
      · subst hbi
        rw [update_self] at he
        cases he
        exact hd.closed hei
      · rw [update_of_ne hbi] at he
        exact h.closed b e he
  lt := by
    intro b hb
    by_cases hbi : b = i
    · rw [hbi]
      exact hd.lt
    · rw [update_of_ne hbi] at hb
      exact h.lt b hb
  processed := by
    intro b hb
    by_cases hbi : b = i
    · subst hbi
      simp
    · rw [update_of_ne hbi]
      exact h.processed b (by omega)
  rootsSelf := by
    intro b hb
    by_cases hbi : b = i
    · subst hbi
      rw [update_self, hd.rootsSelf hb]
    · rw [update_of_ne hbi]
      exact h.rootsSelf b hb
  noPreds := by
    intro b hb e he
    by_cases hbi : b = i
    · subst hbi
      rw [update_self] at he
      cases he
      exact hd.noPreds hb
    · rw [update_of_ne hbi] at he
      exact h.noPreds b hb e he
  detour := by
    intro b e he
    by_cases hbi : b = i
    · subst hbi
      rw [update_self] at he
      cases he
      exact hd.detour
    · rw [update_of_ne hbi] at he
      exact h.detour b e he
  dominators := fun _ hb _ ha => h.dominators_update hd hb ha
  common := fun _ _ he hne _ ha => h.common_update hd he hne ha
  first := fun _ _ he hne => h.first_update hd he hne

end

end Update

/-- The candidate is on the chains of all predecessors that have one. -/
def Settled (graph : MIRGraph) (up : ℕ → Option ℕ) (b : ℕ) : Prop :=
  ∀ d, up b = some d → d ≠ b → MIRGraph.Common up (graph.predecessors b) d

lemma common_of_dominates (h : CandidatesInv graph i up) (hi : i < graph.numBlocks) {a : ℕ}
    (ha : graph.Dominates a i) (hne : a ≠ i) : MIRGraph.Common up (graph.predecessors i) a :=
  fun p hp hpne => h.dominators p hpne a (ha.of_edge hne ⟨hi, hp⟩)

/-- The closest common node of the predecessors. -/
lemma newIdom_of_meet (h : CandidatesInv graph i up) (hi : i < graph.numBlocks)
    (hself : up i ≠ some i) {p : ℕ} {ps : List ℕ} (hps : graph.predecessors i = p :: ps) {d : ℕ}
    (hmeet : ∀ a, Above up d a ↔ Above up p a ∧ MIRGraph.Common up ps a) : NewIdom graph i up d := by
  have hp : p < i := graph.first_lt i hi p (by rw [hps]; rfl)
  have hpd : Above up p d := ((hmeet d).mp (.refl d)).1
  have hdp := hpd.le h.descending
  have hcommon : ∀ a, MIRGraph.Common up (graph.predecessors i) a → Above up d a := by
    intro a ha
    rw [hps] at ha
    exact (hmeet a).mpr ⟨ha p mem_cons_self (h.processed p hp), fun q hq => ha q (mem_cons_of_mem _ hq)⟩
  exact {
    lt := hi
    le := by omega
    closed := fun _ => h.closed.above (h.processed p hp) hpd
    rootsSelf := fun hroot => absurd (h.rootsSelf i hroot) hself
    noPreds := fun hnil => absurd (hps.symm.trans hnil) (cons_ne_nil _ _)
    detour := fun a ha => (h.chain_detour hpd ha).tail
      ⟨⟨hi, hps ▸ mem_cons_self⟩, by omega⟩
    dominators := fun a ha => or_iff_not_imp_left.mpr fun hne =>
      ⟨by omega, hcommon a (h.common_of_dominates hi ha hne)⟩
    above := by
      intro hne
      obtain ⟨x, hx⟩ := ne_none_iff_exists'.mp hne
      have hxi : x ≠ i := fun heq => hself (heq ▸ hx)
      refine .up hx hxi (h.common i x hx hxi d ?_)
      intro q hq hqne
      rw [hps] at hq
      obtain rfl | hq := mem_cons.mp hq
      · exact hpd
      · exact ((hmeet d).mp (.refl d)).2 q hq hqne
    common := fun _ => hcommon
    first := fun _ => ⟨p, ps, hps, hp, hpd⟩ }

lemma newIdom_self (hi : i < graph.numBlocks) (hdom : ∀ a, graph.Dominates a i → a = i) : NewIdom graph i up i where
  lt := hi
  le := le_rfl
  closed := fun hne => absurd rfl hne
  rootsSelf := fun _ => rfl
  noPreds := fun _ => rfl
  detour := fun _ _ => .refl
  dominators := fun a ha => .inl (hdom a ha)
  above := fun _ => .refl i
  common := fun hne => absurd rfl hne
  first := fun hne => absurd rfl hne

theorem visitBlock_spec (h : CandidatesInv graph i up) (hi : i < graph.numBlocks) (changed : Bool) : ∃ d changed',
    graph.visitBlock i (up, changed) = some (Function.update up i (some d), changed') ∧ NewIdom graph i up d ∧
      ((changed' = true ∧ up i ≠ some d) ∨ (changed' = changed ∧ up i = some d ∧ Settled graph up i) ∨
        (changed' = changed ∧ up i = none ∧ d = i)) := by
  unfold MIRGraph.visitBlock
  by_cases hself : up i = some i
  · rw [if_pos hself]
    refine ⟨i, changed, by simp [← hself],
      newIdom_self hi fun a ha => (h.dominators i ?_ a ha).eq_of_self hself, .inr (.inl ⟨rfl, hself, ?_⟩)⟩
    · rw [hself]
      exact some_ne_none i
    · intro d hd hne
      exact absurd (Option.some.inj (hd.symm.trans hself)) hne
  rw [if_neg hself]
  cases hps : graph.predecessors i with
  | nil =>
    refine ⟨i, changed, rfl, newIdom_self hi fun a ha => ha.eq_of_root ⟨hi, .inr (.inr hps)⟩,
      .inr (.inr ⟨rfl, ?_, rfl⟩)⟩
    by_contra hne
    obtain ⟨x, hx⟩ := ne_none_iff_exists'.mp hne
    have heq := h.noPreds i hps x hx
    exact hself (heq ▸ hx)
  | cons p ps =>
    have hp : p < i := graph.first_lt i hi p (by rw [hps]; rfl)
    obtain ⟨r, hr, hmeet⟩ := @commonDominator_spec up h.descending h.closed p ps
      (h.processed p hp)
    simp only [hr]
    cases r with
    | none =>
      refine ⟨i, true, rfl, newIdom_self hi fun a ha => ?_, .inl ⟨rfl, hself⟩⟩
      by_contra hne
      have hcommon := h.common_of_dominates hi ha hne
      rw [hps] at hcommon
      exact hmeet a ⟨hcommon p mem_cons_self (h.processed p hp), fun q hq => hcommon q (mem_cons_of_mem _ hq)⟩
    | some d =>
      have hnew := h.newIdom_of_meet hi hself hps hmeet
      by_cases hsame : up i = some d
      · simp only [if_pos hsame]
        refine ⟨d, changed, by simp [← hsame], hnew, .inr (.inl ⟨rfl, hsame, ?_⟩)⟩
        intro e he hne q hq hqne
        cases hsame.symm.trans he
        rw [hps] at hq
        obtain rfl | hq := mem_cons.mp hq
        · exact ((hmeet d).mp (.refl d)).1
        · exact ((hmeet d).mp (.refl d)).2 q hq hqne
      · simp only [if_neg hsame]
        exact ⟨d, true, rfl, hnew, .inl ⟨rfl, hsame⟩⟩

/-! ## Passes -/

/-- The pairs of a block and a node of its chain, where a block without candidate has all nodes.  The
iteration takes pairs away. -/
def pairs (graph : MIRGraph) (up : ℕ → Option ℕ) : Set (ℕ × ℕ) :=
  {p | p.1 < graph.numBlocks ∧ p.2 < graph.numBlocks + 1 ∧ (up p.1 = none ∨ Above up p.1 p.2)}

lemma finite_pairs : (pairs graph up).Finite :=
  ((Set.finite_Iio graph.numBlocks).prod (Set.finite_Iio (graph.numBlocks + 1))).subset
    fun _ hp => ⟨hp.1, hp.2.1⟩

lemma pairs_update_subset (h : CandidatesInv graph i up) {d : ℕ} (hd : NewIdom graph i up d) :
    pairs graph (Function.update up i (some d)) ⊆ pairs graph up := by
  rintro ⟨b, a⟩ ⟨hb, ha, hp⟩
  refine ⟨hb, ha, or_iff_not_imp_left.mpr fun hne => h.of_update hd hne (hp.resolve_left ?_)⟩
  by_cases hbi : b = i
  · simp [hbi]
  · simp [hbi, hne]

lemma ncard_pairs_update_lt (h : CandidatesInv graph i up) {d : ℕ} (hd : NewIdom graph i up d) (hne : up i ≠ some d) :
    (pairs graph (Function.update up i (some d))).ncard < (pairs graph up).ncard := by
  refine Set.ncard_lt_ncard ((Set.ssubset_iff_of_subset (h.pairs_update_subset hd)).mpr ?_) finite_pairs
  have hupdate : ∀ {a : ℕ}, (i, a) ∈ pairs graph (Function.update up i (some d)) → a = i ∨ (d ≠ i ∧ Above up d a) := by
    intro a ha
    have ha := ha.2.2.resolve_left (by
      rw [update_self]
      exact some_ne_none d)
    by_cases hdi : d = i
    · subst hdi
      exact .inl (ha.eq_of_self (update_self _ _ _))
    · refine ((Above.iff (update_self _ _ _) hdi).mp ha).imp_right fun ha => ⟨hdi, ?_⟩
      exact (h.above_of_lt (lt_of_le_of_ne hd.le hdi)).mp ha
  cases hi : up i with
  | none =>
    refine ⟨(i, graph.numBlocks), ⟨hd.lt, Nat.lt_succ_self _, .inl hi⟩, fun hmem => ?_⟩
    obtain heq | ⟨-, ha⟩ := hupdate hmem
    · exact absurd hd.lt (by omega)
    · exact absurd ((ha.le h.descending).trans hd.le) (by have := hd.lt; omega)
  | some x =>
    have hine : up i ≠ none := by
      rw [hi]
      exact some_ne_none x
    have hxd : d ≠ x := fun heq => hne (heq ▸ hi)
    have hxi : x ≠ i := by
      rintro rfl
      exact hxd ((hd.above hine).eq_of_self hi)
    have hx : Above up i x := .up hi hxi (.refl x)
    have hxn : x < graph.numBlocks := (hx.le h.descending).trans_lt hd.lt
    refine ⟨(i, x), ⟨hd.lt, by omega, .inr hx⟩, fun hmem => ?_⟩
    obtain heq | ⟨hdi, ha⟩ := hupdate hmem
    · exact hxi heq
    · have hdx := ((Above.iff hi hxi).mp (hd.above hine)).resolve_left hdi
      exact hxd (le_antisymm (hdx.le h.descending) (ha.le h.descending))

/-- A pass starts with no candidates but those of roots, or with all. -/
def PassStart (graph : MIRGraph) (up : ℕ → Option ℕ) : Prop :=
  (∀ b d, up b = some d → d = b) ∨ ∀ b < graph.numBlocks, up b ≠ none

theorem visitBlocks_spec (h : CandidatesInv graph 0 up) (hstart : PassStart graph up) {k : ℕ}
    (hk : k ≤ graph.numBlocks) : ∃ up' changed, graph.visitBlocks k (up, false) = some (up', changed) ∧
      CandidatesInv graph k up' ∧ pairs graph up' ⊆ pairs graph up ∧
      (changed = true → (pairs graph up').ncard < (pairs graph up).ncard) ∧
      (changed = false → (∀ b d, up' b = some d → d = b) ∨
        (up' = up ∧ (∀ b < graph.numBlocks, up b ≠ none) ∧ ∀ b < k, Settled graph up b)) := by
  induction k with
  | zero =>
    refine ⟨up, false, rfl, h, Set.Subset.rfl, nofun, fun _ => hstart.imp id fun hall => ?_⟩
    exact ⟨rfl, hall, fun b hb => absurd hb (Nat.not_lt_zero b)⟩
  | succ k ih =>
    obtain ⟨up', changed, heq, hinv, hsub, hchanged, hsame⟩ := ih (by omega)
    obtain ⟨d, changed', hvisit, hd, hcase⟩ := hinv.visitBlock_spec hk changed
    refine ⟨_, changed', ?_, hinv.update hd, (hinv.pairs_update_subset hd).trans hsub, ?_, ?_⟩
    · rw [MIRGraph.visitBlocks, heq]
      exact hvisit
    · intro htrue
      obtain ⟨-, hne⟩ | ⟨rfl, -⟩ | ⟨rfl, -⟩ := hcase
      · exact (hinv.ncard_pairs_update_lt hd hne).trans_le (Set.ncard_le_ncard hsub finite_pairs)
      · exact (Set.ncard_le_ncard (hinv.pairs_update_subset hd) finite_pairs).trans_lt (hchanged htrue)
      · exact (Set.ncard_le_ncard (hinv.pairs_update_subset hd) finite_pairs).trans_lt (hchanged htrue)
    · rintro rfl
      obtain ⟨hfalse, -⟩ | ⟨rfl, hi, hset⟩ | ⟨rfl, hi, rfl⟩ := hcase
      · cases hfalse
      · rw [← hi, update_eq_self]
        refine (hsame rfl).imp id fun hall => ⟨hall.1, hall.2.1, fun b hb => ?_⟩
        obtain hb | rfl := Nat.lt_succ_iff_lt_or_eq.mp hb
        · exact hall.2.2 b hb
        · exact hall.1 ▸ hset
      · obtain hself | ⟨rfl, hall, -⟩ := hsame rfl
        · refine .inl fun b e he => ?_
          by_cases hb : b = d
          · subst hb
            rw [update_self] at he
            exact (Option.some.inj he).symm
          · rw [update_of_ne hb] at he
            exact hself b e he
        · exact absurd hi (hall _ hd.lt)

/-- What the iteration ends with. -/
structure Fixpoint (graph : MIRGraph) (up : ℕ → Option ℕ) : Prop where
  inv : CandidatesInv graph 0 up
  processed : ∀ b < graph.numBlocks, up b ≠ none
  settled : ∀ b < graph.numBlocks, Settled graph up b

lemma restart (h : CandidatesInv graph graph.numBlocks up) : CandidatesInv graph 0 up :=
  { h with
    processed := fun b hb => absurd hb (Nat.not_lt_zero b)
    first := by
      intro b d hd hne
      obtain ⟨p, ps, hps, hp | hp⟩ := h.first b d hd hne
      · simp [hps, hp]
      · have hb := h.lt b (by rw [hd]; exact some_ne_none d)
        exact absurd hp.2 (not_le.mpr hb) }

theorem iterateDominators_spec (h : CandidatesInv graph 0 up) (hstart : PassStart graph up)
    {fuel : ℕ} (hfuel : (pairs graph up).ncard < fuel) :
    ∃ up', graph.iterateDominators fuel up = some up' ∧ Fixpoint graph up' := by
  induction fuel generalizing up with
  | zero => exact absurd hfuel (Nat.not_lt_zero _)
  | succ fuel ih =>
    obtain ⟨up', changed, heq, hinv, -, hchanged, hsame⟩ := h.visitBlocks_spec hstart le_rfl
    have hnext : graph.iterateDominators (fuel + 1) up =
        if changed then graph.iterateDominators fuel up' else some up' := by
      rw [MIRGraph.iterateDominators, heq]
      rfl
    rw [hnext]
    cases changed with
    | true =>
      have hlt := hchanged rfl
      rw [if_pos rfl]
      exact ih hinv.restart (.inr hinv.processed) (by omega)
    | false =>
      refine ⟨up', rfl, hinv.restart, hinv.processed, fun b hb => ?_⟩
      obtain hself | ⟨rfl, -, hset⟩ := hsame rfl
      · exact fun d hd hne => absurd (hself b d hd) hne
      · exact hset b hb

/-- The chains of the result are the dominators. -/
lemma Fixpoint.above_iff (h : Fixpoint graph up) {b a : ℕ} (hb : b < graph.numBlocks) :
    Above up b a ↔ graph.Dominates a b := by
  refine ⟨fun ha => ?_, fun ha => h.inv.dominators b (h.processed b hb) a ha⟩
  refine @Dominates.of_equations _ _ _ _ _ (Above up) (fun b a ha => ?_) ha
  cases ha with
  | refl => exact .inl rfl
  | @up b d a hd hne ha =>
    have hb := h.inv.lt b (by rw [hd]; exact some_ne_none d)
    refine .inr ⟨fun hroot => ?_, fun p hp => ?_⟩
    · obtain ⟨-, hentry | hosr | hnil⟩ := hroot
      · exact hne (Option.some.inj (hd.symm.trans (h.inv.rootsSelf b (.inl hentry))))
      · exact hne (Option.some.inj (hd.symm.trans (h.inv.rootsSelf b (.inr hosr))))
      · exact hne (h.inv.noPreds b hnil d hd)
    · have hplt := graph.predecessors_lt b hp.1 p hp.2
      exact (h.settled b hb d hd hne p hp.2 (h.processed p hplt)).trans ha

end CandidatesInv

/-! ## The result -/

namespace MIRGraph

variable {graph : MIRGraph}

lemma rootDominators_eq_some {b d : ℕ} : graph.rootDominators b = some d ↔
    (b = graph.entryBlock ∨ graph.osrBlock = some b) ∧ b = d := by
  simp [rootDominators]

lemma candidatesInv_rootDominators : CandidatesInv graph 0 graph.rootDominators := by
  have hself : ∀ {b d : ℕ}, graph.rootDominators b = some d → d = b := fun hd => (rootDominators_eq_some.mp hd).2.symm
  have hlt : ∀ {b d : ℕ}, graph.rootDominators b = some d → graph.IsRoot b := by
    intro b d hd
    obtain ⟨rfl | hosr, -⟩ := rootDominators_eq_some.mp hd
    · exact ⟨graph.entryBlock_lt, .inl rfl⟩
    · exact ⟨graph.osrBlock_lt b hosr, .inr (.inl hosr)⟩
  exact {
    descending := fun _ _ hd => (hself hd).le
    closed := by
      intro b d hd
      rw [hself hd, hd]
      simp
    lt := by
      intro b hb
      obtain ⟨d, hd⟩ := ne_none_iff_exists'.mp hb
      exact (hlt hd).1
    processed := fun b hb => absurd hb (Nat.not_lt_zero b)
    rootsSelf := fun _ hb => rootDominators_eq_some.mpr ⟨hb, rfl⟩
    noPreds := fun _ _ _ hd => hself hd
    detour := fun _ _ hd _ _ => hself hd ▸ .refl
    dominators := by
      intro b hb a ha
      obtain ⟨d, hd⟩ := ne_none_iff_exists'.mp hb
      rw [ha.eq_of_root (hlt hd)]
      exact .refl b
    common := fun _ _ hd hne => absurd (hself hd) hne
    first := fun _ _ hd hne => absurd (hself hd) hne }

lemma ncard_pairs_le {up : ℕ → Option ℕ} : (CandidatesInv.pairs graph up).ncard ≤
    graph.numBlocks * (graph.numBlocks + 1) := by
  have hsub : CandidatesInv.pairs graph up ⊆
      (Finset.range graph.numBlocks ×ˢ Finset.range (graph.numBlocks + 1) : Finset (ℕ × ℕ)) := by
    intro p hp
    rw [Finset.mem_coe, Finset.mem_product, Finset.mem_range, Finset.mem_range]
    exact ⟨hp.1, hp.2.1⟩
  have hle := Set.ncard_le_ncard hsub (Finset.finite_toSet _)
  rwa [Set.ncard_coe_finset, Finset.card_product, Finset.card_range, Finset.card_range] at hle

theorem computeImmediateDominators_spec : ∃ up, graph.computeImmediateDominators = some up ∧
    CandidatesInv.Fixpoint graph up :=
  candidatesInv_rootDominators.iterateDominators_spec
    (.inl fun _ _ hd => (rootDominators_eq_some.mp hd).2.symm)
    (Nat.lt_succ_of_le ncard_pairs_le)

end MIRGraph

end SpiderMonkey
