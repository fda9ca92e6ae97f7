import Mathlib.Data.Set.Card
import Mathlib.Logic.Relation
import Mathlib.Tactic

/-!
# Explorations of a graph

A depth-first search that shares one set of visited nodes among all its branches: what it adds to
the set, for one node, for several, and at the root.  The relation `Explores` is independent of the
order of the search and of how the set is represented.  What a search collects of its nodes is
`Found`, the values of the nodes it has added.

The number of nodes that are left (`remaining`) bounds the depth of the search.
-/

open Relation

variable {N B : Type*} {E : N → N → Prop}

/-- A search from `roots` that takes the visited nodes from `S` to `S'` and need not be complete: it
adds the roots and nodes that can be reached. -/
structure Collects (E : N → N → Prop) (roots S S' : Set N) : Prop where
  subset : S ⊆ S'
  roots_subset : roots ⊆ S'
  reachable : ∀ w ∈ S', w ∉ S → ∃ r ∈ roots, ReflTransGen E r w

namespace Collects

open Set

variable {roots roots' S S' S'' : Set N} {v : N}

lemma nil : Collects E ∅ S S := ⟨subset_rfl, empty_subset S, fun _ h hn => absurd h hn⟩

lemma visited (h : v ∈ S) : Collects E {v} S S :=
  ⟨subset_rfl, singleton_subset_iff.mpr h, fun _ h hn => absurd h hn⟩

lemma insert : Collects E {v} S (insert v S) :=
  ⟨subset_insert v S, singleton_subset_iff.mpr (mem_insert v S),
    fun _ hw hn => ⟨v, rfl, hw.resolve_right hn ▸ .refl⟩⟩

lemma append (h : Collects E roots S S') (h' : Collects E roots' S' S'') : Collects E (roots ∪ roots') S S'' where
  subset := h.subset.trans h'.subset
  roots_subset := union_subset (h.roots_subset.trans h'.subset) h'.roots_subset
  reachable := by
    intro w hw hn
    by_cases hw' : w ∈ S'
    · obtain ⟨r, hr, hreach⟩ := h.reachable w hw' hn
      exact ⟨r, .inl hr, hreach⟩
    · obtain ⟨r, hr, hreach⟩ := h'.reachable w hw hw'
      exact ⟨r, .inr hr, hreach⟩

lemma node {W : Set N} (h : Collects E W (Insert.insert v S) S') (hW : ∀ w ∈ W, E v w) : Collects E {v} S S' where
  subset := (subset_insert v S).trans h.subset
  roots_subset := singleton_subset_iff.mpr (h.subset (mem_insert v S))
  reachable := by
    intro w hw hn
    by_cases hwv : w = v
    · exact ⟨v, rfl, hwv ▸ .refl⟩
    · obtain ⟨r, hr, hreach⟩ := h.reachable w hw fun h => h.elim hwv hn
      exact ⟨v, rfl, .head (hW r hr) hreach⟩

end Collects

/-- A search from `roots` that takes the visited nodes from `S` to `S'`: it adds nodes that can be
reached, and everything that follows them. -/
structure Explores (E : N → N → Prop) (roots S S' : Set N) : Prop
    extends Collects E roots S S' where
  closed : ∀ w ∈ S', w ∉ S → ∀ w', E w w' → w' ∈ S'

namespace Explores

variable {roots roots' S S' S'' : Set N} {v : N}

lemma nil : Explores E ∅ S S := ⟨.nil, fun _ h hn => absurd h hn⟩

lemma visited (h : v ∈ S) : Explores E {v} S S := ⟨.visited h, fun _ h hn => absurd h hn⟩

lemma append (h : Explores E roots S S') (h' : Explores E roots' S' S'') : Explores E (roots ∪ roots') S S'' where
  toCollects := h.toCollects.append h'.toCollects
  closed := by
    intro w hw hn w' hE
    by_cases hw' : w ∈ S'
    · exact h'.subset (h.closed w hw' hn w' hE)
    · exact h'.closed w hw hw' w' hE

lemma node (h : Explores E {w | E v w} (insert v S) S') : Explores E {v} S S' where
  toCollects := h.toCollects.node fun _ hw => hw
  closed := by
    intro w hw hn w' hE
    by_cases hwv : w = v
    · subst hwv
      exact h.roots_subset hE
    · exact h.closed w hw (fun h => h.elim hwv hn) w' hE

/-- From scratch a search visits what can be reached. -/
lemma eq_reachable (h : Explores E {v} ∅ S') : S' = {w | ReflTransGen E v w} := by
  ext w
  constructor
  · intro hw
    obtain ⟨r, rfl, hreach⟩ := h.reachable w hw (Set.notMem_empty w)
    exact hreach
  · intro hw
    induction hw with
    | refl => exact h.roots_subset rfl
    | tail _ hE ih => exact h.closed _ ih (Set.notMem_empty _) _ hE

end Explores

/-- The values of the nodes that a search has added. -/
def Found (value : N → Set B) (S S' : Set N) : Set B := {b | ∃ w ∈ S', w ∉ S ∧ b ∈ value w}

namespace Found

variable {value : N → Set B} {S S' S'' : Set N} {v : N}

@[simp] lemma self : Found value S S = ∅ := Set.eq_empty_of_forall_notMem fun _ ⟨_, hw, hn, _⟩ => hn hw

lemma append (h : S ⊆ S') (h' : S' ⊆ S'') : Found value S S'' = Found value S S' ∪ Found value S' S'' := by
  ext b
  constructor
  · rintro ⟨w, hw, hn, hb⟩
    by_cases hw' : w ∈ S'
    · exact .inl ⟨w, hw', hn, hb⟩
    · exact .inr ⟨w, hw, hw', hb⟩
  · rintro (⟨w, hw, hn, hb⟩ | ⟨w, hw, hn, hb⟩)
    · exact ⟨w, h' hw, hn, hb⟩
    · exact ⟨w, hw, fun hs => hn (h hs), hb⟩

lemma node (hv : v ∉ S) (h : insert v S ⊆ S') : Found value S S' = value v ∪ Found value (insert v S) S' := by
  ext b
  constructor
  · rintro ⟨w, hw, hn, hb⟩
    by_cases hwv : w = v
    · exact .inl (hwv ▸ hb)
    · exact .inr ⟨w, hw, fun h => h.elim hwv hn, hb⟩
  · rintro (hb | ⟨w, hw, hn, hb⟩)
    · exact ⟨v, h (Set.mem_insert v S), hv, hb⟩
    · exact ⟨w, hw, fun hs => hn (.inr hs), hb⟩

lemma exists_reachable {roots : Set N} (h : Explores E roots S S') {b : B}
    (hb : b ∈ Found value S S') : ∃ r ∈ roots, ∃ w, ReflTransGen E r w ∧ b ∈ value w := by
  obtain ⟨w, hw, hn, hb⟩ := hb
  obtain ⟨r, hr, hreach⟩ := h.reachable w hw hn
  exact ⟨r, hr, w, hreach, hb⟩

end Found

/-! ## Nodes that are left -/

noncomputable def remaining (U S : Set N) : ℕ := (U \ S).ncard

section Remaining

variable {U S S' : Set N} {v : N}

lemma remaining_insert_lt (hU : U.Finite) (hv : v ∈ U) (hn : v ∉ S) : remaining U (insert v S) < remaining U S := by
  apply Set.ncard_lt_ncard _ hU.sdiff
  refine ⟨Set.sdiff_subset_sdiff_right (Set.subset_insert v S), fun h => ?_⟩
  exact (h ⟨hv, hn⟩).2 (Set.mem_insert v S)

lemma remaining_le (hU : U.Finite) (h : S ⊆ S') : remaining U S' ≤ remaining U S :=
  Set.ncard_le_ncard (Set.sdiff_subset_sdiff_right h) hU.sdiff

lemma remaining_le_ncard (hU : U.Finite) : remaining U S ≤ U.ncard := Set.ncard_le_ncard Set.sdiff_subset hU

end Remaining
