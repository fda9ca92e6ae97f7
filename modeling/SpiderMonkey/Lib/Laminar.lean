import Mathlib.Tactic

/-!
# Nested intervals with links

Intervals in the order of their starts, each with a link to an earlier one: of two intervals the earlier is reached
from the later by links, or it ends before the later starts.  The last interval around a point is then found on
the chain of links from any interval that starts at the point or before it.
-/

/-- `i` is reached from `j` by links. -/
inductive IsAncestor (parent : ℕ → Option ℕ) : ℕ → ℕ → Prop
  | link {i j : ℕ} : parent j = some i → IsAncestor parent i j
  | trans {i j k : ℕ} : parent j = some k → IsAncestor parent i k → IsAncestor parent i j

namespace IsAncestor

variable {parent parent' : ℕ → Option ℕ} {i j k n : ℕ}

/-- An ancestor is the one that is linked, or an ancestor of it. -/
lemma cases_link (h : IsAncestor parent i j) : ∃ k, parent j = some k ∧ (i = k ∨ IsAncestor parent i k) := by
  cases h with
  | link h => exact ⟨i, h, .inl rfl⟩
  | trans h hi => exact ⟨_, h, .inr hi⟩

lemma lt (hlt : ∀ j < n, ∀ k, parent j = some k → k < j) (h : IsAncestor parent i j) (hj : j < n) : i < j := by
  induction h with
  | link h => exact hlt _ hj _ h
  | trans h _ ih =>
    have hk := hlt _ hj _ h
    exact (ih (hk.trans hj)).trans hk

lemma congr (hlt : ∀ j < n, ∀ k, parent j = some k → k < j) (heq : ∀ j < n, parent' j = parent j)
    (h : IsAncestor parent i j) (hj : j < n) : IsAncestor parent' i j := by
  induction h with
  | link h => exact .link ((heq _ hj).trans h)
  | trans h _ ih => exact .trans ((heq _ hj).trans h) (ih ((hlt _ hj _ h).trans hj))

end IsAncestor

/-- The last index before `k` with a property, if there is one. -/
def IsLastBelow (P : ℕ → Prop) (k : ℕ) : Option ℕ → Prop
  | none => ∀ i < k, ¬P i
  | some g => g < k ∧ P g ∧ ∀ i < k, g < i → ¬P i

lemma isLastBelow_zero {P : ℕ → Prop} : IsLastBelow P 0 none := fun _ h => absurd h (Nat.not_lt_zero _)

lemma IsLastBelow.extend {P : ℕ → Prop} {k m : ℕ} {g : Option ℕ} (h : IsLastBelow P k g) (hkm : k ≤ m)
    (hnone : ∀ i < m, k ≤ i → ¬P i) : IsLastBelow P m g := by
  cases g with
  | none => exact fun i hi => (lt_or_ge i k).elim (h i) (hnone i hi)
  | some g =>
    obtain ⟨hg, hP, hlast⟩ := h
    exact ⟨hg.trans_le hkm, hP, fun i hi hgi => (lt_or_ge i k).elim (fun hik => hlast i hik hgi) (hnone i hi)⟩

/-- Intervals `[start i, stop i)` for `i < n`. -/
structure Laminar {α : Type*} [LinearOrder α] (n : ℕ) (start stop : ℕ → α) (parent : ℕ → Option ℕ) : Prop where
  sorted : ∀ i j, i ≤ j → j < n → start i ≤ start j
  parent_lt : ∀ j < n, ∀ k, parent j = some k → k < j
  nested : ∀ i j, i < j → j < n → IsAncestor parent i j ∨ stop i ≤ start j

namespace Laminar

variable {α : Type*} [LinearOrder α] {n : ℕ} {start stop : ℕ → α} {parent : ℕ → Option ℕ} {x : α} {i j mid bottom check : ℕ}

/-- The point is in the interval. -/
def Covers (start stop : ℕ → α) (x : α) (i : ℕ) : Prop := start i ≤ x ∧ x < stop i

/-- The intervals around a point that are not after one that starts before it are on its chain. -/
lemma on_chain (h : Laminar n start stop parent) (hmid : mid < n) (hstart : start mid ≤ x) (hi : i ≤ mid)
    (hcovers : Covers start stop x i) : i = mid ∨ IsAncestor parent i mid := by
  obtain rfl | hlt := hi.eq_or_lt
  · exact .inl rfl
  · exact .inr ((h.nested i mid hlt hmid).resolve_right fun hstop => not_lt.2 (hstop.trans hstart) hcovers.2)

/-- What is left to be looked for while a chain is followed: intervals between `bottom` and `mid` that are on the
rest of the chain. -/
def OnRest (start stop : ℕ → α) (parent : ℕ → Option ℕ) (x : α) (bottom mid check : ℕ) : Prop :=
  ∀ i, bottom ≤ i → i ≤ mid → Covers start stop x i → i = check ∨ IsAncestor parent i check

lemma onRest_mid (h : Laminar n start stop parent) (hmid : mid < n) (hstart : start mid ≤ x) :
    OnRest start stop parent x bottom mid mid := fun _ _ hi hcovers => h.on_chain hmid hstart hi hcovers

section

variable (h : OnRest start stop parent x bottom mid check)

include h

lemma OnRest.next (hcheck : ¬Covers start stop x check) {k : ℕ}
    (hparent : parent check = some k) : OnRest start stop parent x bottom mid k := by
  intro i hb hi hcovers
  obtain rfl | hancestor := h i hb hi hcovers
  · exact absurd hcovers hcheck
  · obtain ⟨k', hk', hik⟩ := hancestor.cases_link
    cases hparent.symm.trans hk'
    exact hik

lemma OnRest.none (hcheck : ¬Covers start stop x check)
    (hparent : parent check = Option.none) (hb : bottom ≤ i) (hi : i ≤ mid) : ¬Covers start stop x i := by
  intro hcovers
  obtain rfl | hancestor := h i hb hi hcovers
  · exact hcheck hcovers
  · obtain ⟨k, hk, -⟩ := hancestor.cases_link
    exact absurd (hparent.symm.trans hk) (Option.some_ne_none k).symm

lemma OnRest.below (hl : Laminar n start stop parent) (hcheck : check < n)
    (hbelow : check < bottom) (hb : bottom ≤ i) (hi : i ≤ mid) : ¬Covers start stop x i := by
  intro hcovers
  obtain rfl | hancestor := h i hb hi hcovers
  · omega
  · have := hancestor.lt hl.parent_lt hcheck
    omega

/-- The first interval of the chain that is around the point is the last one. -/
lemma OnRest.isLastBelow (hl : Laminar n start stop parent)
    (hcheck : check < n) (hle : check ≤ mid) (hbottom : bottom ≤ check) (hcovers : Covers start stop x check) :
    IsLastBelow (Covers start stop x) (mid + 1) (some check) := by
  refine ⟨by omega, hcovers, fun i hi hlt hi' => ?_⟩
  obtain rfl | hancestor := h i (by omega) (by omega) hi'
  · exact lt_irrefl _ hlt
  · have := hancestor.lt hl.parent_lt hcheck
    omega

end

lemma not_covers_of_lt (h : Laminar n start stop parent) (hlt : x < start mid) (hmid : mid ≤ i) (hi : i < n) :
    ¬Covers start stop x i :=
  fun hcovers => not_lt.2 (((h.sorted mid i hmid hi).trans hcovers.1)) hlt

end Laminar
