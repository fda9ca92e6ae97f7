import SpiderMonkey.Lib.Dominance

/-!
# Loops that are intervals

A graph whose nodes are numbered such that an edge leads to a greater node, or it is the back edge of a
loop.  A loop is the interval from its header to the origin of its back edge, and it is entered at the
header only.

A way that ends at a node that is not greater than its start passes the header of a loop with both
(`LoopIntervals.exists_header`), and no node of a loop dominates what can be reached around it from the
header (`LoopIntervals.not_dominates`).
-/

namespace Dominance

open List

/-- A way from `i`, with the nodes that it passes after `i`. -/
inductive Trail {N : Type*} (E : N → N → Prop) : N → List N → N → Prop
  | nil (i : N) : Trail E i [] i
  | cons {i j k : N} {l : List N} (he : E i j) (h : Trail E j l k) : Trail E i (j :: l) k

namespace Trail

variable {N : Type*} {E : N → N → Prop} {R : N → Prop} {a i j k : N} {l l' : List N}

lemma append (h : Trail E i l j) (h' : Trail E j l' k) : Trail E i (l ++ l') k := by
  induction h with
  | nil => exact h'
  | cons he _ ih => exact .cons he (ih h')

lemma exists_of_mem (h : Trail E i l k) (hj : j ∈ l) :
    ∃ l₁ l₂, l = l₁ ++ l₂ ∧ j ∈ l₁ ∧ Trail E i l₁ j ∧ Trail E j l₂ k := by
  induction h with
  | nil => exact absurd hj not_mem_nil
  | @cons i x k l he h ih =>
    obtain rfl | hj := mem_cons.1 hj
    · exact ⟨[j], l, rfl, mem_singleton_self j, .cons he (.nil j), h⟩
    · obtain ⟨l₁, l₂, rfl, hmem, h₁, h₂⟩ := ih hj
      exact ⟨x :: l₁, l₂, rfl, mem_cons_of_mem _ hmem, .cons he h₁, h₂⟩

lemma detour (h : Trail E i l j) (ha : a ∉ l) : Detour E a i j := by
  induction h with
  | nil => exact .refl
  | cons he _ ih =>
    obtain ⟨hne, ha⟩ := not_or.1 (mt mem_cons.2 ha)
    exact .head ⟨he, Ne.symm hne⟩ (ih ha)

lemma of_walk {p q : List N} (h : Walk E R k (q ++ i :: p)) : Trail E i q.reverse k := by
  generalize hl : q ++ i :: p = l at h
  induction h generalizing q with
  | root =>
    cases q with
    | nil =>
      obtain rfl := (List.cons.inj hl).1
      exact .nil _
    | cons x q => exact absurd (List.cons.inj hl).2 (by simp)
  | @step b c p' _ he ih =>
    cases q with
    | nil =>
      obtain rfl := (List.cons.inj hl).1
      exact .nil _
    | cons x q =>
      obtain ⟨rfl, htail⟩ := List.cons.inj hl
      rw [reverse_cons]
      exact (ih htail).append (.cons he (.nil _))

end Trail

/-- Every loop is an interval, which is entered at its header, and all other edges lead to greater nodes.
The nodes are those less than `n`. -/
structure LoopIntervals (n : ℕ) (E : ℕ → ℕ → Prop) (R : ℕ → Prop) (loop : ℕ → ℕ → Prop) : Prop where
  lt : ∀ i j, E i j → i < n ∧ j < n
  edge : ∀ i j, E i j → i < j ∨ loop j i
  forward : ∀ j < n, R j ∨ ∃ i < j, E i j
  loop_le : ∀ h u, loop h u → h ≤ u ∧ u < n
  entered : ∀ h u, loop h u → ∀ i j, E i j → h ≤ j → j ≤ u → ¬ (h ≤ i ∧ i ≤ u) → j = h
  root : ∀ h u, loop h u → ∀ r, R r → h ≤ r → r ≤ u → r = h

namespace LoopIntervals

variable {n : ℕ} {E : ℕ → ℕ → Prop} {R : ℕ → Prop} {loop : ℕ → ℕ → Prop}
  (hE : LoopIntervals n E R loop) {a h u i j : ℕ} {l : List ℕ}

include hE

/-- Every node can be reached over smaller ones. -/
lemma exists_walk (hj : j < n) : ∃ p, Walk E R j p ∧ ∀ x ∈ p, x ≤ j := by
  induction j using Nat.strong_induction_on with
  | _ j ih =>
    obtain hroot | ⟨i, hij, he⟩ := hE.forward j hj
    · exact ⟨[j], .root hroot, fun x hx => (mem_singleton.1 hx).le⟩
    · obtain ⟨p, hp, hle⟩ := ih i hij (hij.trans hj)
      refine ⟨j :: p, .step hp he, fun x hx => ?_⟩
      obtain rfl | hx := mem_cons.1 hx
      · exact le_rfl
      · exact (hle x hx).trans hij.le

/-- A node of a loop can be reached from the header over smaller ones. -/
lemma exists_trail (hloop : loop h u) (hj : h ≤ j) (hju : j ≤ u) : ∃ l, Trail E h l j ∧ ∀ x ∈ l, h < x ∧ x ≤ j := by
  induction j using Nat.strong_induction_on with
  | _ j ih =>
    obtain rfl | hne := eq_or_ne j h
    · exact ⟨[], .nil j, nofun⟩
    · obtain hroot | ⟨i, hij, he⟩ := hE.forward j (hju.trans_lt (hE.loop_le h u hloop).2)
      · exact absurd (hE.root h u hloop j hroot hj hju) hne
      · have hi : h ≤ i ∧ i ≤ u := by
          by_contra hi
          exact hne (hE.entered h u hloop i j he hj hju hi)
        obtain ⟨l, ht, hl⟩ := ih i hij hi.1 hi.2
        refine ⟨l ++ [j], ht.append (.cons he (.nil j)), fun x hx => ?_⟩
        obtain hx | hx := mem_append.1 hx
        · exact ⟨(hl x hx).1, (hl x hx).2.trans hij.le⟩
        · obtain rfl := mem_singleton.1 hx
          omega

/-- A way that does not lead to a greater node passes the header of a loop with its ends. -/
theorem exists_header (ht : Trail E i l j) (hl : l ≠ []) (hle : j ≤ i) : ∃ h u, loop h u ∧ h ≤ j ∧ i ≤ u ∧ h ∈ l := by
  induction ht with
  | nil => exact absurd rfl hl
  | @cons i k j l he ht ih =>
    by_cases hkj : k ≤ j
    · obtain hlt | hloop := hE.edge i k he
      · omega
      · exact ⟨k, i, hloop, hkj, le_rfl, mem_cons_self⟩
    · have hl' : l ≠ [] := by
        rintro rfl
        cases ht
        exact hkj le_rfl
      obtain ⟨h, u, hloop, hhj, hku, hmem⟩ := ih hl' (by omega)
      refine ⟨h, u, hloop, hhj, ?_, mem_cons_of_mem _ hmem⟩
      -- otherwise the loop would be entered at a node that is not its header
      by_contra hiu
      have heq := hE.entered h u hloop i k he (by omega) hku fun hi => hiu hi.2
      omega

/-- What is reached from the header of a loop without a node of the loop is not dominated by that node. -/
theorem not_dominates (hloop : loop h u) (ha : h ≤ a) (ht : Trail E i l j) (hh : h ∈ l) (hmem : a ∉ l) :
    ¬ Dominates E R a j := by
  obtain ⟨l₁, l₂, rfl, hh₁, -, h₂⟩ := ht.exists_of_mem hh
  have hah : a ≠ h := fun heq => hmem (mem_append_left _ (heq ▸ hh₁))
  have hle := hE.loop_le h u hloop
  obtain ⟨p, hp, hlt⟩ := hE.exists_walk (hle.1.trans_lt hle.2)
  have hap : a ∉ p := fun hmem => hah (le_antisymm (hlt a hmem) ha)
  obtain ⟨p', hp', hap'⟩ := hp.extend hap (h₂.detour fun hm => hmem (mem_append_right _ hm))
  exact fun hdom => hap' (hdom p' hp')

end LoopIntervals

end Dominance
