import Mathlib.Tactic

/-!
# Checked computations

Code whose assertions are part of its contract: a computation ends in a value or at the first
check that does not hold.  `Checked.Returns m Q` says that no check of `m` fails and that its
value satisfies `Q`; the rules follow the way such computations are put together.
-/

inductive Fault where
  /-- A condition that the code asserts does not hold. -/
  | assertion
  /-- An operation outside its domain, where the language leaves the result undefined. -/
  | undefinedBehavior
  deriving DecidableEq, Repr

abbrev Checked (α : Type) := Except Fault α

namespace Checked

variable {α β : Type} {m : Checked α} {f : α → Checked β} {Q Q' : α → Prop} {R : β → Prop}

/-- Stop unless the condition holds. -/
def ensure (p : Prop) [Decidable p] : Checked Unit :=
  if p then return else throw .assertion

/-- No check of the computation fails, and its value satisfies `Q`. -/
def Returns (m : Checked α) (Q : α → Prop) : Prop := ∃ a, m = .ok a ∧ Q a

namespace Returns

protected lemma pure {a : α} (h : Q a) : Returns (pure a) Q := ⟨a, rfl, h⟩

protected lemma bind (hm : Returns m Q) (hf : ∀ a, Q a → Returns (f a) R) : Returns (m >>= f) R := by
  obtain ⟨a, rfl, ha⟩ := hm
  exact hf a ha

protected lemma ensure {p : Prop} [Decidable p] (h : p) : Returns (ensure p) fun _ => p := ⟨(), if_pos h, h⟩

lemma imp (hm : Returns m Q) (h : ∀ a, Q a → Q' a) : Returns m Q' := by
  obtain ⟨a, hm, ha⟩ := hm
  exact ⟨a, hm, h a ha⟩

protected lemma ite {c : Prop} [Decidable c] {m₁ m₂ : Checked α}
    (h₁ : c → Returns m₁ Q) (h₂ : ¬c → Returns m₂ Q) : Returns (if c then m₁ else m₂) Q := by
  split
  next h => exact h₁ h
  next h => exact h₂ h

lemma mapM {R : α → β → Prop} (h : ∀ a, Returns (f a) (R a)) : ∀ l : List α, Returns (l.mapM f) (List.Forall₂ R l)
  | [] => ⟨[], rfl, .nil⟩
  | a :: l => by
    rw [List.mapM_cons]
    apply (h a).bind
    intro b hb
    apply (mapM h l).bind
    intro bs hbs
    exact .pure (.cons hb hbs)

end Returns

end Checked
