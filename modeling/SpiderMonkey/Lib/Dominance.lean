import Mathlib.Logic.Relation
import Mathlib.Tactic

/-!
# Dominance

In a graph with several roots a node dominates another if every walk from a root to the other passes
through it.  A node is also kept with its chain of candidates: `Above up b a` says that `a` is found by
following `up` from `b`, where a node that is its own candidate ends the chain.

`Dominates.of_equations` bounds sets that solve the equations of dominance from above; that they are
not too small is kept step by step with `Dominates.of_detour`.
-/

open Relation

namespace Dominance

section Walks

variable {N : Type*} (E : N → N → Prop) (R : N → Prop)

/-- A walk from a root, with the nodes it passes, last first. -/
inductive Walk : N → List N → Prop
  | root {r : N} (h : R r) : Walk r [r]
  | step {b c : N} {p : List N} (h : Walk b p) (he : E b c) : Walk c (c :: p)

def Dominates (a b : N) : Prop := ∀ p, Walk E R b p → a ∈ p

/-- A way from `b` to `c` that does not pass through `a`. -/
def Detour (a b c : N) : Prop := ReflTransGen (fun x y => E x y ∧ y ≠ a) b c

end Walks

variable {N : Type*} {E : N → N → Prop} {R : N → Prop} {a b c : N}

lemma Walk.extend {p : List N} (h : Walk E R b p) (hp : a ∉ p) (hd : Detour E a b c) :
    ∃ p', Walk E R c p' ∧ a ∉ p' := by
  induction hd with
  | refl => exact ⟨p, h, hp⟩
  | tail _ he ih =>
    obtain ⟨p', h', hp'⟩ := ih
    refine ⟨_, .step h' he.1, fun hmem => ?_⟩
    obtain heq | hmem := List.mem_cons.mp hmem
    · exact he.2 heq.symm
    · exact hp' hmem

namespace Dominates

lemma eq_of_root (h : Dominates E R a b) (hb : R b) : a = b := List.mem_singleton.mp (h _ (.root hb))

lemma of_edge (h : Dominates E R a b) (hne : a ≠ b) (he : E c b) : Dominates E R a c := by
  intro p hp
  exact (List.mem_cons.mp (h _ (.step hp he))).resolve_left hne

lemma of_detour (h : Dominates E R a c) (hd : Detour E a b c) : Dominates E R a b := by
  intro p hp
  by_contra hmem
  obtain ⟨p', hp', hmem'⟩ := hp.extend hmem hd
  exact hmem' (h p' hp')

/-- Sets that solve the equations of dominance contain dominators only. -/
theorem of_equations {S : N → N → Prop}
    (hS : ∀ b a, S b a → a = b ∨ (¬R b ∧ ∀ p, E p b → S p a)) (h : S b a) : Dominates E R a b := by
  intro p hp
  induction hp with
  | root hr =>
    obtain rfl | ⟨hnot, -⟩ := hS _ _ h
    · simp
    · exact absurd hr hnot
  | step hw he ih =>
    obtain rfl | ⟨-, hpreds⟩ := hS _ _ h
    · simp
    · simp [ih, hpreds, he]

end Dominates

/-! ## Chains of candidates -/

/-- `a` is on the chain that starts at `b`. -/
inductive Above (up : ℕ → Option ℕ) : ℕ → ℕ → Prop
  | refl (b : ℕ) : Above up b b
  | up {b d a : ℕ} (hd : up b = some d) (hne : d ≠ b) (h : Above up d a) : Above up b a

/-- Candidates are smaller, or the nodes themselves. -/
def Descending (up : ℕ → Option ℕ) : Prop := ∀ b d, up b = some d → d ≤ b

namespace Above

variable {up up' : ℕ → Option ℕ} {a a' b c d : ℕ}

lemma trans (h : Above up c b) (h' : Above up b a) : Above up c a := by
  induction h with
  | refl => exact h'
  | up hd hne _ ih => exact .up hd hne (ih h')

lemma le (h : Above up b a) (hup : Descending up) : a ≤ b := by
  induction h with
  | refl => exact le_rfl
  | up hd _ _ ih => exact ih.trans (hup _ _ hd)

lemma iff (hd : up b = some d) (hne : d ≠ b) : Above up b a ↔ a = b ∨ Above up d a := by
  constructor
  · intro h
    cases h with
    | refl => exact .inl rfl
    | up hd' _ h =>
      cases hd.symm.trans hd'
      exact .inr h
  · rintro (rfl | h)
    · exact .refl _
    · exact .up hd hne h

lemma eq_of_self (h : Above up b a) (hb : up b = some b) : a = b := by
  cases h with
  | refl => rfl
  | up hd hne => exact absurd (Option.some.inj (hd.symm.trans hb)) hne

lemma of_le (h : Above up b a) (h' : Above up b a') (hle : a ≤ a') (hup : Descending up) : Above up a' a := by
  induction h' with
  | refl => exact h
  | @up b d a' hd hne h'' ih =>
    obtain rfl | h := (iff hd hne).mp h
    · have hle' := h''.le hup
      have hdb := hup _ _ hd
      omega
    · exact ih h hle

/-- Chains that do not pass through a node are not changed with its candidate. -/
lemma congr (h : ∀ x, Above up b x → up' x = up x) : Above up' b a ↔ Above up b a := by
  constructor
  · intro ha
    induction ha with
    | refl => exact .refl _
    | @up b d a hd hne _ ih =>
      have hdb : up b = some d := (h b (.refl b)).symm.trans hd
      exact .up hdb hne (ih fun x hx => h x (.up hdb hne hx))
  · intro ha
    induction ha with
    | refl => exact .refl _
    | @up b d a hd hne _ ih =>
      exact .up ((h b (.refl b)).trans hd) hne (ih fun x hx => h x (.up hd hne hx))

lemma congr_of_lt (hup : Descending up) (hlt : b < c) : Above (Function.update up c d') b a ↔ Above up b a :=
  congr fun _ hx => Function.update_of_ne (by have := hx.le hup; omega) _ _

/-- The candidate of `c` is replaced by one of its chain: chains lose nodes only. -/
lemma of_update (h : Above (Function.update up c (some d)) b a) (hd : Above up c d) : Above up b a := by
  induction h with
  | refl => exact .refl _
  | @up b e a he hne _ ih =>
    by_cases hbc : b = c
    · subst hbc
      rw [Function.update_self] at he
      cases he
      exact hd.trans ih
    · rw [Function.update_of_ne hbc] at he
      exact .up he hne ih

/-- A node of a chain that is left in the chain of `c` stays. -/
lemma update (h : Above up b a) (hc : Above up b c → Above (Function.update up c d') c a ∨ c ≤ a)
    (hup : Descending up) : Above (Function.update up c d') b a := by
  induction h with
  | refl => exact .refl _
  | @up b e a he hne h ih =>
    by_cases hbc : b = c
    · subst hbc
      obtain hc | hle := hc (.refl b)
      · exact hc
      · have := h.le hup
        have := hup _ _ he
        omega
    · exact .up ((Function.update_of_ne hbc _ _).trans he) hne (ih fun h' => hc (.up he hne h'))

end Above

end Dominance
