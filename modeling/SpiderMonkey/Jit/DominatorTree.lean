import SpiderMonkey.Jit.Dominators

/-!
# The numbering of the dominator tree

`BuildDominatorTree` collects the children of each block and the sizes of the subtrees in postorder,
and numbers the tree in pre-order with a worklist.  The blocks that a block dominates are then an
interval of the numbers.
-/

open Dominance Forest

namespace SpiderMonkey

open List Function Option

/-- The dominator information of the blocks. -/
structure DominatorTree where
  immediateDominator : ℕ → Option ℕ
  immediatelyDominated : ℕ → List ℕ
  numDominated : ℕ → ℕ
  domIndex : ℕ → ℕ

namespace DominatorTree

variable (t : DominatorTree)

def addNumDominated (b n : ℕ) : DominatorTree :=
  { t with numDominated := Function.update t.numDominated b (t.numDominated b + n) }

lemma numDominated_addNumDominated_self (b n : ℕ) :
    (t.addNumDominated b n).numDominated b = t.numDominated b + n := update_self _ _ _

lemma numDominated_addNumDominated_of_ne {b c : ℕ} (n : ℕ) (h : c ≠ b) :
    (t.addNumDominated b n).numDominated c = t.numDominated c := update_of_ne h _ _

def addImmediatelyDominatedBlock (b child : ℕ) : DominatorTree :=
  { t with
    immediatelyDominated :=
      Function.update t.immediatelyDominated b (t.immediatelyDominated b ++ [child]) }

def setDomIndex (b i : ℕ) : DominatorTree :=
  { t with domIndex := Function.update t.domIndex b i }

/-- One block of the traversal in postorder; the list is the worklist. -/
def visitChild (child : ℕ) (s : DominatorTree × List ℕ) : Option (DominatorTree × List ℕ) :=
  match s.1.immediateDominator child with
  | none => none
  | some parent =>
    let t := s.1.addNumDominated child 1
    if child = parent then some (t, s.2 ++ [child])
    else
      let t := t.addImmediatelyDominatedBlock parent child
      some (t.addNumDominated parent (t.numDominated child), s.2)

def visitChildren : ℕ → DominatorTree × List ℕ → Option (DominatorTree × List ℕ)
  | 0, s => some s
  | k + 1, s => do
    let s ← visitChild k s
    visitChildren k s

/-- The traversal in pre-order; the worklist's end is its top. -/
def setDomIndices : ℕ → List ℕ → ℕ → DominatorTree → Option DominatorTree
  | 0, _, _, _ => none
  | fuel + 1, worklist, index, t =>
    match worklist.getLast? with
    | none => some t
    | some block =>
      setDomIndices fuel (worklist.dropLast ++ t.immediatelyDominated block) (index + 1)
        (t.setDomIndex block index)

end DominatorTree

/-- The tree is built from cleared dominator information; allocation succeeds. -/
def MIRGraph.buildDominatorTree (graph : MIRGraph) : Option DominatorTree := do
  let immediateDominator ← graph.computeImmediateDominators
  let s ← DominatorTree.visitChildren graph.numBlocks
    (⟨immediateDominator, fun _ => [], fun _ => 0, fun _ => 0⟩, [])
  DominatorTree.setDomIndices (graph.numBlocks + 1) s.2 0 s.1

/-! ## The tree of candidates -/

section Tree

variable {n k : ℕ} {up : ℕ → Option ℕ}

def isChild (up : ℕ → Option ℕ) (b c : ℕ) : Bool := decide (up c = some b ∧ c ≠ b)

lemma isChild_iff {b c : ℕ} : isChild up b c = true ↔ up c = some b ∧ c ≠ b := decide_eq_true_iff

def blocksFrom (n k : ℕ) : List ℕ := List.range' k (n - k)

lemma blocksFrom_of_lt (hk : k < n) : blocksFrom n k = k :: blocksFrom n (k + 1) := by
  unfold blocksFrom
  rw [show n - k = n - (k + 1) + 1 by omega, range'_succ]

lemma mem_blocksFrom {b : ℕ} (hk : k ≤ n) : b ∈ blocksFrom n k ↔ k ≤ b ∧ b < n := by
  unfold blocksFrom
  rw [mem_range'_1]
  omega

def childrenOf (up : ℕ → Option ℕ) (n b : ℕ) : List ℕ := (blocksFrom n 0).filter (isChild up b)

lemma mem_childrenOf {b c : ℕ} : c ∈ childrenOf up n b ↔ c < n ∧ up c = some b ∧ c ≠ b := by
  rw [childrenOf, mem_filter, isChild_iff, mem_blocksFrom (Nat.zero_le n)]
  simp

lemma filter_blocksFrom (hup : Descending up) {b : ℕ} (hk : k ≤ n) (hb : k ≤ b + 1) :
    (blocksFrom n k).filter (isChild up b) = childrenOf up n b := by
  induction k with
  | zero => rfl
  | succ k ih =>
    rw [← ih (by omega) (by omega), blocksFrom_of_lt (by omega : k < n), filter_cons_of_neg]
    rw [isChild_iff]
    rintro ⟨hk, hne⟩
    have hle := hup _ _ hk
    omega

lemma subtrees_childrenOf (hup : Descending up) (hlt : ∀ b, up b ≠ none → b < n) :
    Subtrees (childrenOf up n) (Above up) where
  iff := by
    intro x b
    constructor
    · intro h
      induction h with
      | refl => exact .inl rfl
      | @up x d b hd hne _ ih =>
        obtain rfl | ⟨c, hc, hx⟩ := ih
        · have hx := hlt x (by rw [hd]; exact some_ne_none _)
          exact .inr ⟨x, mem_childrenOf.mpr ⟨hx, hd, hne.symm⟩, .refl x⟩
        · exact .inr ⟨c, hc, .up hd hne hx⟩
    · rintro (rfl | ⟨c, hc, hx⟩)
      · exact .refl x
      · obtain ⟨-, hc, hne⟩ := mem_childrenOf.mp hc
        exact hx.trans (.up hc hne.symm (.refl b))
  antisymm := fun x b h h' => le_antisymm (h'.le hup) (h.le hup)
  pairwise := by
    intro b
    have hapart : ∀ c ∈ childrenOf up n b, ∀ c' ∈ childrenOf up n b, c < c' → ∀ x, ¬(Above up x c ∧ Above up x c') := by
      rintro c hc c' hc' hlt x ⟨hx, hx'⟩
      obtain ⟨-, hc, hne⟩ := mem_childrenOf.mp hc
      obtain ⟨-, hc', hne'⟩ := mem_childrenOf.mp hc'
      have hcc := hx.of_le hx' hlt.le hup
      obtain heq | hbc := (Above.iff hc' hne'.symm).mp hcc
      · omega
      · have hle := hbc.le hup
        have hle' := hup _ _ hc
        omega
    have hsorted : (childrenOf up n b).Pairwise (· < ·) := List.Pairwise.filter _ pairwise_lt_range'
    exact hsorted.imp_of_mem fun hc hc' hlt => hapart _ hc _ hc' hlt
  notMem := fun b hb => (mem_childrenOf.mp hb).2.2 rfl

end Tree

/-! ## The traversal in postorder -/

namespace DominatorTree

/-- What holds when the blocks from `k` on have been visited. -/
structure ChildrenInv (n k : ℕ) (up : ℕ → Option ℕ) (s : DominatorTree × List ℕ) : Prop where
  immediateDominator : s.1.immediateDominator = up
  children : ∀ b, (s.1.immediatelyDominated b).reverse = (blocksFrom n k).filter (isChild up b)
  count : ∀ b, ∃ o, Preorder (childrenOf up n) ((blocksFrom n k).filter (isChild up b)) o ∧
    s.1.numDominated b = o.length + if k ≤ b ∧ b < n then 1 else 0
  roots : s.2.reverse = (blocksFrom n k).filter fun c => decide (up c = some c)

namespace ChildrenInv

variable {n k : ℕ} {up : ℕ → Option ℕ} {s : DominatorTree × List ℕ}

lemma visitRoot (h : ChildrenInv n (k + 1) up s) (hk : k < n) (hself : up k = some k) :
    ChildrenInv n k up (s.1.addNumDominated k 1, s.2 ++ [k]) := by
  have hfilter : ∀ b, (blocksFrom n k).filter (isChild up b) = (blocksFrom n (k + 1)).filter (isChild up b) := by
    intro b
    rw [blocksFrom_of_lt hk, filter_cons_of_neg]
    simp [isChild_iff, hself]
  refine ⟨h.immediateDominator, fun b => (h.children b).trans (hfilter b).symm, fun b => ?_, ?_⟩
  · obtain ⟨o, ho, hcount⟩ := h.count b
    refine ⟨o, by rw [hfilter b]; exact ho, ?_⟩
    by_cases hb : b = k
    · subst hb
      rw [if_neg (by omega)] at hcount
      rw [if_pos ⟨le_rfl, hk⟩, numDominated_addNumDominated_self, hcount]
    · rw [numDominated_addNumDominated_of_ne _ _ hb, hcount]
      congr 1
      exact if_congr ⟨fun hb' => ⟨by omega, hb'.2⟩, fun hb' => ⟨by omega, hb'.2⟩⟩ rfl rfl
  · rw [blocksFrom_of_lt hk, filter_cons_of_pos (by rw [hself]; exact decide_eq_true rfl), reverse_append, h.roots]
    rfl

lemma visitInner (h : ChildrenInv n (k + 1) up s) (hup : Descending up) (hk : k < n) {p : ℕ}
    (hp : up k = some p) (hne : k ≠ p) :
    ChildrenInv n k up
      ((((s.1.addNumDominated k 1).addImmediatelyDominatedBlock p k).addNumDominated p
        (((s.1.addNumDominated k 1).addImmediatelyDominatedBlock p k).numDominated k)), s.2) := by
  have hpk : p < k := lt_of_le_of_ne (hup _ _ hp) hne.symm
  have hself : (blocksFrom n k).filter (isChild up p) = k :: (blocksFrom n (k + 1)).filter (isChild up p) := by
    rw [blocksFrom_of_lt hk, filter_cons_of_pos (isChild_iff.mpr ⟨hp, hne⟩)]
  have hother : ∀ b, b ≠ p → (blocksFrom n k).filter (isChild up b) = (blocksFrom n (k + 1)).filter (isChild up b) := by
    intro b hb
    rw [blocksFrom_of_lt hk, filter_cons_of_neg]
    rw [isChild_iff, hp]
    exact fun hc => hb (Option.some.inj hc.1).symm
  obtain ⟨ok, hok, hcountk⟩ := h.count k
  rw [filter_blocksFrom hup hk (le_refl _)] at hok
  rw [if_neg (by omega), Nat.add_zero] at hcountk
  refine ⟨h.immediateDominator, fun b => ?_, fun b => ?_, ?_⟩
  · by_cases hb : b = p
    · subst hb
      simp [addNumDominated, addImmediatelyDominatedBlock, h.children, hself]
    · simp only [addNumDominated, addImmediatelyDominatedBlock, update_of_ne hb, h.children, hother b hb]
  · obtain ⟨o, ho, hcount⟩ := h.count b
    by_cases hb : b = p
    · subst hb
      refine ⟨k :: ok ++ o, ?_, ?_⟩
      · rw [hself]
        exact @Preorder.append _ _ [k] _ _ _ (.cons (by rw [append_nil]; exact hok)) ho
      · rw [if_neg (by omega), Nat.add_zero] at hcount
        rw [if_neg (by omega)]
        simp only [addNumDominated, addImmediatelyDominatedBlock, update_self,
          update_of_ne hne.symm, hcount, hcountk, List.length_append, length_cons]
        omega
    · refine ⟨o, by rw [hother b hb]; exact ho, ?_⟩
      simp only [addNumDominated, addImmediatelyDominatedBlock, update_of_ne hb]
      by_cases hbk : b = k
      · subst hbk
        simp [hcount, hk]
      · rw [update_of_ne hbk, hcount]
        congr 1
        exact if_congr ⟨fun hb' => ⟨by omega, hb'.2⟩, fun hb' => ⟨by omega, hb'.2⟩⟩ rfl rfl
  · rw [h.roots, blocksFrom_of_lt hk, filter_cons_of_neg]
    rw [decide_eq_true_iff, hp]
    exact fun heq => hne (Option.some.inj heq).symm

theorem visitChildren_spec (h : ChildrenInv n k up s) (hup : Descending up) (hall : ∀ b < n, up b ≠ none) (hk : k ≤ n) :
    ∃ s', visitChildren k s = some s' ∧ ChildrenInv n 0 up s' := by
  induction k generalizing s with
  | zero => exact ⟨s, rfl, h⟩
  | succ k ih =>
    obtain ⟨p, hp⟩ := ne_none_iff_exists'.mp (hall k hk)
    have hstep : ∃ s', visitChild k s = some s' ∧ ChildrenInv n k up s' := by
      rw [visitChild, h.immediateDominator, hp]
      by_cases hkp : k = p
      · subst hkp
        exact ⟨_, if_pos rfl, h.visitRoot hk hp⟩
      · exact ⟨_, if_neg hkp, h.visitInner hup hk hp hkp⟩
    obtain ⟨s', hs', hinv⟩ := hstep
    obtain ⟨s'', hs'', hinv'⟩ := ih hinv (by omega)
    exact ⟨s'', by rw [visitChildren, hs']; exact hs'', hinv'⟩

end ChildrenInv

/-! ## The traversal in pre-order -/

/-- Blocks get their positions in the walk. -/
theorem setDomIndices_spec {children : ℕ → List ℕ} {stack o : List ℕ}
    (h : Preorder children stack o) (hnodup : o.Nodup) {worklist : List ℕ} {index fuel : ℕ}
    {t : DominatorTree} (hstack : worklist.reverse = stack)
    (hchildren : ∀ b, (t.immediatelyDominated b).reverse = children b) (hfuel : o.length < fuel) :
    ∃ domIndex, setDomIndices fuel worklist index t = some { t with domIndex := domIndex } ∧
      (∀ b ∉ o, domIndex b = t.domIndex b) ∧ ∀ b ∈ o, domIndex b = index + o.idxOf b := by
  induction h generalizing worklist index fuel t with
  | nil =>
    obtain rfl := reverse_eq_nil_iff.mp hstack
    cases fuel with
    | zero => exact absurd hfuel (Nat.not_lt_zero _)
    | succ fuel => exact ⟨t.domIndex, rfl, fun _ _ => rfl, fun b hb => absurd hb not_mem_nil⟩
  | @cons b s o h ih =>
    cases fuel with
    | zero => exact absurd hfuel (Nat.not_lt_zero _)
    | succ fuel =>
      obtain ⟨hb, hnodup⟩ := nodup_cons.mp hnodup
      have hworklist : worklist = s.reverse ++ [b] := by
        rw [← reverse_reverse worklist, hstack, reverse_cons]
      obtain ⟨domIndex, heq, hout, hin⟩ := @ih hnodup (s.reverse ++ t.immediatelyDominated b)
        (index + 1) fuel (t.setDomIndex b index)
        (by rw [reverse_append, reverse_reverse, hchildren]) hchildren
        (by rw [length_cons] at hfuel; omega)
      refine ⟨domIndex, ?_, fun x hx => ?_, fun x hx => ?_⟩
      · rw [setDomIndices, hworklist, getLast?_concat, dropLast_concat]
        exact heq
      · rw [hout x fun hmem => hx (mem_cons_of_mem _ hmem)]
        exact update_of_ne (fun hxb => hx (mem_cons.mpr (.inl hxb))) _ _
      · by_cases hxb : x = b
        · subst hxb
          rw [hout x hb, idxOf_cons_self]
          exact update_self _ _ _
        · have hmem := (mem_cons.mp hx).resolve_left hxb
          rw [hin x hmem, idxOf_cons_ne _ (Ne.symm hxb)]
          omega

end DominatorTree

/-! ## The result -/

namespace MIRGraph

variable (graph : MIRGraph)

def StrictlyDominates (a b : ℕ) : Prop := a ≠ b ∧ graph.Dominates a b

/-- The closest strict dominator, or the block itself if there is none. -/
structure IsImmediateDominator (b d : ℕ) : Prop where
  self_iff : d = b ↔ ∀ a, ¬graph.StrictlyDominates a b
  strictly : d ≠ b → graph.StrictlyDominates d b
  closest : d ≠ b → ∀ a, graph.StrictlyDominates a b → graph.Dominates a d

variable {graph}

lemma isImmediateDominator_of_fixpoint {up : ℕ → Option ℕ}
    (h : CandidatesInv.Fixpoint graph up) {b d : ℕ} (hd : up b = some d) :
    graph.IsImmediateDominator b d := by
  have hb := h.inv.lt b (by rw [hd]; exact some_ne_none d)
  have hdn : d < graph.numBlocks := (h.inv.descending b d hd).trans_lt hb
  have hstrict : d ≠ b → graph.StrictlyDominates d b := fun hne =>
    ⟨hne, (h.above_iff hb).mp (.up hd hne (.refl d))⟩
  refine ⟨⟨?_, fun hnone => by_contra fun hne => hnone d (hstrict hne)⟩, hstrict, fun hne a ha => ?_⟩
  · rintro rfl a ha
    exact ha.1 (((h.above_iff hb).mpr ha.2).eq_of_self hd)
  · have habove := (h.above_iff hb).mpr ha.2
    exact (h.above_iff hdn).mp (((Above.iff hd hne).mp habove).resolve_left ha.1)

/-- The blocks without strict dominators. -/
def rootBlocks (up : ℕ → Option ℕ) (n : ℕ) : List ℕ :=
  (blocksFrom n 0).filter fun b => decide (up b = some b)

lemma mem_rootBlocks {up : ℕ → Option ℕ} {n b : ℕ} : b ∈ rootBlocks up n ↔ b < n ∧ up b = some b := by
  rw [rootBlocks, mem_filter, mem_blocksFrom (Nat.zero_le n), decide_eq_true_iff]
  simp

section Walk

variable {up : ℕ → Option ℕ} {o : List ℕ}

variable (h : CandidatesInv.Fixpoint graph up)

include h

lemma lt_of_above {b c : ℕ} (hb : b < graph.numBlocks) (hc : Above up c b) : c < graph.numBlocks := by
  cases hc with
  | refl => exact hb
  | up hd => exact h.inv.lt c (by rw [hd]; exact some_ne_none _)

section

variable (ho : Preorder (childrenOf up graph.numBlocks) (rootBlocks up graph.numBlocks) o)

include ho

/-- The walk from the roots passes all blocks. -/
lemma mem_walk {b : ℕ} : b ∈ o ↔ b < graph.numBlocks := by
  rw [ho.mem_iff (subtrees_childrenOf h.inv.descending h.inv.lt)]
  constructor
  · rintro ⟨r, hr, hb⟩
    exact lt_of_above h (mem_rootBlocks.mp hr).1 hb
  · intro hb
    induction b using Nat.strong_induction_on with
    | _ b ih =>
      obtain ⟨d, hd⟩ := ne_none_iff_exists'.mp (h.processed b hb)
      by_cases hdb : d = b
      · exact ⟨b, mem_rootBlocks.mpr ⟨hb, hdb ▸ hd⟩, .refl b⟩
      · have hle := h.inv.descending b d hd
        obtain ⟨r, hr, hdr⟩ := ih d (by omega) (by omega)
        exact ⟨r, hr, .up hd hdb hdr⟩

lemma nodup_walk : o.Nodup := by
  refine ho.nodup (subtrees_childrenOf h.inv.descending h.inv.lt) ?_
  have hsorted : (rootBlocks up graph.numBlocks).Pairwise (· < ·) := List.Pairwise.filter _ pairwise_lt_range'
  refine hsorted.imp_of_mem fun hr hr' hlt x hx => ?_
  have habove := hx.1.of_le hx.2 hlt.le h.inv.descending
  exact absurd (habove.eq_of_self (mem_rootBlocks.mp hr').2) hlt.ne

lemma length_walk : o.length = graph.numBlocks := by
  have hperm : o.Perm (List.range graph.numBlocks) :=
    (perm_ext_iff_of_nodup (nodup_walk h ho) nodup_range).mpr fun b => by
      rw [mem_walk h ho, mem_range]
  simp [hperm.length_eq]

end

/-- The subtree of a block has the blocks that it dominates. -/
lemma length_subtree {b : ℕ} (hb : b < graph.numBlocks) (ho : Preorder (childrenOf up graph.numBlocks) [b] o) :
    o.length = {c | c < graph.numBlocks ∧ graph.Dominates b c}.ncard := by
  have hsubtrees := subtrees_childrenOf h.inv.descending h.inv.lt
  have hset : {c | c < graph.numBlocks ∧ graph.Dominates b c} = (o.toFinset : Set ℕ) := by
    ext c
    rw [Set.mem_ofPred_eq, Finset.mem_coe, List.mem_toFinset, ho.mem_iff hsubtrees]
    simp only [mem_singleton, exists_eq_left]
    constructor
    · exact fun hc => (h.above_iff hc.1).mpr hc.2
    · exact fun hc => ⟨lt_of_above h hb hc, (h.above_iff (lt_of_above h hb hc)).mp hc⟩
  rw [hset, Set.ncard_coe_finset, toFinset_card_of_nodup (ho.nodup hsubtrees (pairwise_singleton _ _))]

end Walk

lemma visitChildren_fixpoint {up : ℕ → Option ℕ} (h : CandidatesInv.Fixpoint graph up) :
    ∃ s, DominatorTree.visitChildren graph.numBlocks
      (⟨up, fun _ => [], fun _ => 0, fun _ => 0⟩, []) = some s ∧
      DominatorTree.ChildrenInv graph.numBlocks 0 up s := by
  have hnil : blocksFrom graph.numBlocks graph.numBlocks = [] := by
    simp [blocksFrom]
  have hinit : DominatorTree.ChildrenInv graph.numBlocks graph.numBlocks up
      (⟨up, fun _ => [], fun _ => 0, fun _ => 0⟩, []) := by
    refine ⟨rfl, fun b => ?_, fun b => ⟨[], ?_, ?_⟩, ?_⟩
    · rw [hnil]
      rfl
    · rw [hnil]
      exact .nil
    · simp
    · rw [hnil]
      rfl
  exact hinit.visitChildren_spec h.inv.descending h.processed le_rfl

/-- Every block has a subtree, of the size that is noted. -/
lemma exists_subtree {up : ℕ → Option ℕ} {s : DominatorTree × List ℕ}
    (h : DominatorTree.ChildrenInv graph.numBlocks 0 up s) {b : ℕ} (hb : b < graph.numBlocks) :
    ∃ o, Preorder (childrenOf up graph.numBlocks) [b] o ∧ s.1.numDominated b = o.length := by
  obtain ⟨o, ho, hlen⟩ := h.count b
  rw [if_pos ⟨Nat.zero_le b, hb⟩] at hlen
  exact ⟨b :: o, .cons (by rw [append_nil]; exact ho), hlen⟩

lemma exists_walk {up : ℕ → Option ℕ} {s : DominatorTree × List ℕ}
    (h : DominatorTree.ChildrenInv graph.numBlocks 0 up s) {l : List ℕ}
    (hl : ∀ b ∈ l, b < graph.numBlocks) :
    ∃ o, Preorder (childrenOf up graph.numBlocks) l o := by
  induction l with
  | nil => exact ⟨[], .nil⟩
  | cons b l ih =>
    obtain ⟨o, ho, -⟩ := exists_subtree h (hl b mem_cons_self)
    obtain ⟨o', ho'⟩ := ih fun c hc => hl c (mem_cons_of_mem _ hc)
    exact ⟨_, ho.append ho'⟩

/-- The iteration ends with the immediate dominators; the numbers of dominated blocks and the indices
of the tree that is built from them are those of dominance. -/
theorem buildDominatorTree_correct (graph : MIRGraph) :
    ∃ t, graph.buildDominatorTree = some t ∧ graph.computeImmediateDominators = some t.immediateDominator ∧
      ∀ b < graph.numBlocks, (∃ d, t.immediateDominator b = some d ∧ graph.IsImmediateDominator b d) ∧
        t.numDominated b = {c | c < graph.numBlocks ∧ graph.Dominates b c}.ncard ∧
        ∀ c < graph.numBlocks, t.domIndex c ∈ Set.Ico (t.domIndex b) (t.domIndex b + t.numDominated b) ↔
            graph.Dominates b c := by
  obtain ⟨up, hup, hfix⟩ := @computeImmediateDominators_spec graph
  obtain ⟨⟨t, worklist⟩, hvisit, hinv⟩ := visitChildren_fixpoint hfix
  obtain ⟨o, ho⟩ := @exists_walk graph up _ hinv (rootBlocks up graph.numBlocks)
    fun b hb => (mem_rootBlocks.mp hb).1
  have hnodup := nodup_walk hfix ho
  have hlength := length_walk hfix ho
  obtain ⟨domIndex, hindices, -, hdomIndex⟩ := @DominatorTree.setDomIndices_spec _ _ _ ho hnodup
    worklist 0 (graph.numBlocks + 1) t hinv.roots hinv.children (by omega)
  have hidom : t.immediateDominator = up := hinv.immediateDominator
  refine ⟨{ t with domIndex := domIndex }, ?_, ?_, fun b hb => ⟨?_, ?_, fun c hc => ?_⟩⟩
  · rw [buildDominatorTree, hup, bind_eq_bind, bind_some, hvisit]
    exact hindices
  · rw [hup, hidom]
  · obtain ⟨d, hd⟩ := ne_none_iff_exists'.mp (hfix.processed b hb)
    exact ⟨d, by rw [hidom]; exact hd, isImmediateDominator_of_fixpoint hfix hd⟩
  · obtain ⟨sub, hsub, hlen⟩ := exists_subtree hinv hb
    exact hlen.trans (length_subtree hfix hb hsub)
  · obtain ⟨sub, hsub, hlen⟩ := exists_subtree hinv hb
    have hbo := (mem_walk hfix ho).mpr hb
    have hco := (mem_walk hfix ho).mpr hc
    have hinterval := ho.idxOf_mem_interval
      (subtrees_childrenOf hfix.inv.descending hfix.inv.lt) hnodup hbo hco hsub
    rw [← hfix.above_iff hc, ← hinterval]
    simp only [hdomIndex b hbo, hdomIndex c hco, Nat.zero_add]
    exact iff_of_eq (congrArg (fun n => o.idxOf c ∈ Set.Ico (o.idxOf b) (o.idxOf b + n)) hlen)

end MIRGraph

end SpiderMonkey
