import Mathlib.Data.Fintype.Basic
import Mathlib.Logic.Relation
import Mathlib.Order.WellFounded
import Mathlib.Tactic

/-!
# Graphs without cycles

How a graph stays acyclic when an edge is added, and why a walk through a finite acyclic graph ends.
-/

open Relation

variable {N : Type*} {E E' : N → N → Prop}

/-- No node can be reached from itself in one step or more. -/
def Acyclic (E : N → N → Prop) : Prop := ∀ a, ¬ TransGen E a a

/-- The graph with one more edge. -/
def AddEdge (E : N → N → Prop) (x y a b : N) : Prop := E a b ∨ a = x ∧ b = y

namespace Acyclic

lemma mono (h : Acyclic E) (hle : ∀ a b, E' a b → E a b) : Acyclic E' := fun a ha => h a (TransGen.mono hle a a ha)

/-- A path uses the new edge or it does not. -/
lemma transGen_addEdge {x y a b : N} (hback : ¬ ReflTransGen E y x) (h : TransGen (AddEdge E x y) a b) :
    TransGen E a b ∨ ReflTransGen E a x ∧ ReflTransGen E y b := by
  induction h with
  | single hab =>
    obtain hE | ⟨rfl, rfl⟩ := hab
    · exact .inl (.single hE)
    · exact .inr ⟨.refl, .refl⟩
  | tail _ hcd ih =>
    obtain hE | ⟨rfl, rfl⟩ := hcd
    · exact ih.imp (fun h => h.tail hE) fun h => ⟨h.1, h.2.tail hE⟩
    · obtain h | h := ih
      · exact .inr ⟨h.to_reflTransGen, .refl⟩
      · exact absurd h.2 hback

/-- An edge closes no cycle if its source cannot be reached from its target. -/
theorem addEdge (h : Acyclic E) {x y : N} (hback : ¬ ReflTransGen E y x) : Acyclic (AddEdge E x y) := by
  intro a ha
  obtain hE | ⟨hax, hya⟩ := transGen_addEdge hback ha
  · exact h a hE
  · exact hback (hya.trans hax)

lemma not_addEdge {x y : N} (hback : ReflTransGen E y x) : ¬ Acyclic (AddEdge E x y) := by
  intro h
  have hback' : ReflTransGen (AddEdge E x y) y x := ReflTransGen.mono (fun _ _ => .inl) y x hback
  exact h x (TransGen.head' (.inr ⟨rfl, rfl⟩) hback')

/-- Every walk ends in a finite graph without cycles. -/
theorem acc {n : ℕ} {E : ℕ → ℕ → Prop} (h : Acyclic E) (hn : ∀ a b, E a b → b < n) (a : ℕ) :
    Acc (fun b a => E a b) a := by
  let R : Fin n → Fin n → Prop := fun b a => TransGen E a b
  have htrans : IsTrans (Fin n) R := ⟨fun _ _ _ hab hbc => hbc.trans hab⟩
  have hirrefl : Std.Irrefl R := ⟨fun a => h a⟩
  have hwf : WellFounded R := Finite.wellFounded_of_trans_of_irrefl R
  have hfin (i : Fin n) : Acc (fun b a => E a b) (i : ℕ) := by
    induction i using hwf.induction with
    | _ i ih => exact ⟨_, fun b hb => ih ⟨b, hn i b hb⟩ (.single hb)⟩
  exact ⟨a, fun b hb => hfin ⟨b, hn a b hb⟩⟩

end Acyclic

lemma Acc.not_transGen {a : N} (h : Acc (fun b a => E a b) a) : ¬ TransGen E a a := by
  induction h with
  | intro a _ ih =>
    intro hcycle
    obtain ⟨b, hab, hba⟩ := TransGen.head'_iff.1 hcycle
    exact ih b hab (TransGen.tail' hba hab)
