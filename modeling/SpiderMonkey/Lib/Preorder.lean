import Mathlib.Tactic

/-!
# Pre-order by a stack

A forest is given by the children of each node.  `Preorder children s o` says that a walk that takes a
node from the stack `s` and puts its children there in its place passes the nodes `o`.  What the walk
passes between a node and the next on the stack is that node's subtree, so that the subtree is an
interval of the walk.
-/

namespace Forest

open List

variable {N : Type*}

inductive Preorder (children : N → List N) : List N → List N → Prop
  | nil : Preorder children [] []
  | cons {b : N} {s o : List N} (h : Preorder children (children b ++ s) o) : Preorder children (b :: s) (b :: o)

variable {children : N → List N} {b c x : N} {s t o o' : List N}

namespace Preorder

lemma append (h : Preorder children s o) (h' : Preorder children t o') : Preorder children (s ++ t) (o ++ o') := by
  induction h with
  | nil => exact h'
  | @cons b s o _ ih =>
    rw [append_assoc] at ih
    exact .cons ih

lemma of_append (h : Preorder children (s ++ t) o) :
    ∃ o₁ o₂, o = o₁ ++ o₂ ∧ Preorder children s o₁ ∧ Preorder children t o₂ := by
  generalize hst : s ++ t = st at h
  induction h generalizing s with
  | nil =>
    obtain ⟨rfl, rfl⟩ := append_eq_nil_iff.mp hst
    exact ⟨[], [], rfl, .nil, .nil⟩
  | @cons b st o h ih =>
    cases s with
    | nil =>
      rw [nil_append] at hst
      rw [hst]
      exact ⟨[], b :: o, rfl, .nil, .cons h⟩
    | cons b' s =>
      obtain ⟨rfl, rfl⟩ := List.cons.inj hst
      obtain ⟨o₁, o₂, rfl, h₁, h₂⟩ := ih (append_assoc _ _ _)
      exact ⟨b' :: o₁, o₂, rfl, .cons h₁, h₂⟩

lemma unique (h : Preorder children s o) (h' : Preorder children s o') : o = o' := by
  induction h generalizing o' with
  | nil =>
    cases h' with
    | nil => rfl
  | cons _ ih =>
    cases h' with
    | cons h' => rw [ih h']

/-- The subtree of a node that is passed is a part of the walk. -/
lemma segment (h : Preorder children s o) (hb : b ∈ o) :
    ∃ pre sub post, o = pre ++ (b :: sub ++ post) ∧ Preorder children [b] (b :: sub) := by
  induction h with
  | nil => exact absurd hb not_mem_nil
  | @cons b' s o h ih =>
    obtain rfl | hb := mem_cons.mp hb
    · obtain ⟨o₁, o₂, rfl, h₁, -⟩ := h.of_append
      refine ⟨[], o₁, o₂, rfl, .cons ?_⟩
      simp [h₁]
    · obtain ⟨pre, sub, post, rfl, hsub⟩ := ih hb
      exact ⟨b' :: pre, sub, post, rfl, hsub⟩

end Preorder

/-! ## The nodes of the walk -/

section Nodes

variable {D : N → N → Prop}

/-- `D x b` says that `x` is in the subtree of `b`. -/
structure Subtrees (children : N → List N) (D : N → N → Prop) : Prop where
  iff : ∀ x b, D x b ↔ x = b ∨ ∃ c ∈ children b, D x c
  antisymm : ∀ x b, D x b → D b x → x = b
  /-- Siblings have no nodes in common. -/
  pairwise : ∀ b, (children b).Pairwise fun c c' => ∀ x, ¬(D x c ∧ D x c')
  notMem : ∀ b, b ∉ children b

lemma Subtrees.refl (hD : Subtrees children D) (b : N) : D b b := (hD.iff b b).mpr (.inl rfl)

lemma Preorder.mem_iff (hD : Subtrees children D) (h : Preorder children s o) : x ∈ o ↔ ∃ b ∈ s, D x b := by
  induction h with
  | nil => simp only [not_mem_nil, false_and, exists_false]
  | @cons b s o _ ih =>
    simp only [mem_cons, ih, mem_append, exists_eq_or_imp, hD.iff x b]
    constructor
    · rintro (rfl | ⟨c, hc | hc, hx⟩)
      · simp
      · exact .inl (.inr ⟨c, hc, hx⟩)
      · exact .inr ⟨c, hc, hx⟩
    · rintro ((rfl | ⟨c, hc, hx⟩) | ⟨c, hc, hx⟩)
      · exact .inl rfl
      · exact .inr ⟨c, .inl hc, hx⟩
      · exact .inr ⟨c, .inr hc, hx⟩

lemma Preorder.nodup (hD : Subtrees children D) (h : Preorder children s o)
    (hs : s.Pairwise fun b b' => ∀ x, ¬(D x b ∧ D x b')) : o.Nodup := by
  induction h with
  | nil => exact nodup_nil
  | @cons b s o h ih =>
    obtain ⟨hb, hs⟩ := pairwise_cons.mp hs
    have hchild : ∀ c ∈ children b, ∀ x, D x c → D x b := fun c hc x hx =>
      (hD.iff x b).mpr (.inr ⟨c, hc, hx⟩)
    refine nodup_cons.mpr ⟨fun hmem => ?_, ih (pairwise_append.mpr ⟨hD.pairwise b, hs, ?_⟩)⟩
    · obtain ⟨c, hc, hx⟩ := (h.mem_iff hD).mp hmem
      obtain hc | hc := mem_append.mp hc
      · have heq := hD.antisymm b c hx (hchild c hc c (hD.refl c))
        exact hD.notMem b (heq.symm ▸ hc)
      · exact hb c hc b ⟨hD.refl b, hx⟩
    · exact fun c hc b' hb' x hx => hb b' hb' x ⟨hchild c hc x hx.1, hx.2⟩

/-- The positions of a subtree's nodes are an interval that starts at its root's. -/
theorem Preorder.idxOf_mem_interval [DecidableEq N] (hD : Subtrees children D)
    (h : Preorder children s o) (hnodup : o.Nodup) (hb : b ∈ o) (hc : c ∈ o) {sub : List N}
    (hsub : Preorder children [b] sub) :
    o.idxOf c ∈ Set.Ico (o.idxOf b) (o.idxOf b + sub.length) ↔ D c b := by
  obtain ⟨pre, sub', post, rfl, hsub'⟩ := h.segment hb
  obtain rfl := hsub.unique hsub'
  have hDc : D c b ↔ c ∈ b :: sub' := by
    rw [hsub.mem_iff hD]
    simp only [mem_singleton, exists_eq_left]
  obtain ⟨-, hrest, hpre⟩ := nodup_append.mp hnodup
  have hbpre : b ∉ pre := fun hmem => hpre b hmem b (mem_append_left _ mem_cons_self) rfl
  have hidx : (pre ++ (b :: sub' ++ post)).idxOf b = pre.length := by
    rw [idxOf_append_of_notMem hbpre, cons_append, idxOf_cons_self, Nat.add_zero]
  rw [hDc, hidx, Set.mem_Ico]
  by_cases hcpre : c ∈ pre
  · have hlt := idxOf_lt_length_of_mem hcpre
    rw [idxOf_append_of_mem hcpre]
    have hnot : c ∉ b :: sub' := fun hmem => hpre c hcpre c (mem_append_left _ hmem) rfl
    exact ⟨fun h => absurd h.1 (by omega), fun h => absurd h hnot⟩
  · rw [idxOf_append_of_notMem hcpre]
    by_cases hcsub : c ∈ b :: sub'
    · have hlt := idxOf_lt_length_of_mem hcsub
      rw [idxOf_append_of_mem hcsub]
      exact ⟨fun _ => hcsub, fun _ => ⟨by omega, by omega⟩⟩
    · rw [idxOf_append_of_notMem hcsub]
      exact ⟨fun h => absurd h.2 (by omega), fun h => absurd h hcsub⟩

end Nodes

end Forest
