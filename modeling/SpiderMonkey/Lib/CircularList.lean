import Mathlib.Data.List.Cycle
import Mathlib.Tactic

/-!
# Circular lists that are linked in both directions

A list without a header, whose last node is followed by its first one.  `IsCircle next prev head l` says
that the nodes that are linked from `head` on are `l`.
-/

variable {N : Type*}

/-- The node `b` follows `a`. -/
def LinksTo (next prev : N → N) (a b : N) : Prop := next a = b ∧ prev b = a

structure IsCircle (next prev : N → N) (head : Option N) (l : List N) : Prop where
  head_eq : head = l.head?
  nodup : l.Nodup
  chain : Cycle.Chain (LinksTo next prev) (l : Cycle N)

namespace IsCircle

open List Function

variable {next prev : N → N} {head : Option N} {l : List N} {a b x : N}

lemma empty (next prev : N → N) : IsCircle next prev none [] := ⟨rfl, nodup_nil, trivial⟩

lemma cons_iff {m : List N} {z : N} (h : (x :: m).getLast (cons_ne_nil x m) = z) :
    Cycle.Chain (LinksTo next prev) (x :: m : Cycle N) ↔
      List.IsChain (LinksTo next prev) (x :: m) ∧ LinksTo next prev z x := by
  rw [Cycle.chain_coe_cons, ← cons_append, isChain_append]
  simp [getLast?_eq_some_getLast (cons_ne_nil x m), h]

/-! ## Walking around -/

lemma next_eq {before after : List N} (h : IsCircle next prev head (before ++ a :: b :: after)) : next a = b := by
  have hmem : (before ++ a :: b :: after : List N) ~r (a :: b :: after ++ before) := ⟨before.length, by simp⟩
  have hchain := h.chain
  rw [Cycle.coe_eq_coe.2 hmem] at hchain
  exact hchain.rel.1

lemma next_last {before : List N} (h : IsCircle next prev head (before ++ [a])) : head = some (next a) := by
  have hmem : (before ++ [a] : List N) ~r (a :: before) := ⟨before.length, by simp⟩
  have hchain := h.chain
  rw [Cycle.coe_eq_coe.2 hmem] at hchain
  rw [h.head_eq]
  cases before with
  | nil => exact congrArg some hchain.rel.1.symm
  | cons y before => exact congrArg some hchain.rel.1.symm

lemma ne_head {before after : List N} (h : IsCircle next prev (some x) (before ++ a :: b :: after)) : b ≠ x := by
  rintro rfl
  have hhead := h.head_eq
  cases before with
  | nil =>
    cases hhead
    exact (nodup_cons.1 h.nodup).1 mem_cons_self
  | cons y before =>
    cases hhead
    exact (nodup_cons.1 h.nodup).1 (by simp)

/-- The node in front of the head is the last one. -/
lemma prev_head {m : List N} (h : IsCircle next prev head (x :: m)) :
    prev x = (x :: m).getLast (cons_ne_nil x m) := ((cons_iff rfl).1 h.chain).2.2

/-! ## Changing links -/

/-- The links inside of a list do not depend on what follows its last node and what precedes its first. -/
lemma chain_congr {next' prev' : N → N} {m : List N} (h : List.IsChain (LinksTo next prev) (x :: m))
    (hnodup : (x :: m).Nodup)
    (hnext : ∀ a ∈ x :: m, a ≠ (x :: m).getLast (cons_ne_nil x m) → next' a = next a)
    (hprev : ∀ b ∈ m, prev' b = prev b) : List.IsChain (LinksTo next' prev') (x :: m) := by
  induction m generalizing x with
  | nil => exact isChain_singleton x
  | cons b m ih =>
    obtain ⟨hrel, htail⟩ := isChain_cons_cons.1 h
    obtain ⟨hx, hnodup'⟩ := nodup_cons.1 hnodup
    have hlast : (x :: b :: m).getLast (cons_ne_nil x _) = (b :: m).getLast (cons_ne_nil b m) :=
      getLast_cons (cons_ne_nil b m)
    refine isChain_cons_cons.2 ⟨⟨?_, ?_⟩, ih htail hnodup' (fun a ha hne => ?_) fun c hc => ?_⟩
    · refine (hnext x mem_cons_self fun heq => hx ?_).trans hrel.1
      rw [heq, hlast]
      exact getLast_mem _
    · exact (hprev b mem_cons_self).trans hrel.2
    · exact hnext a (mem_cons_of_mem _ ha) (hlast.symm ▸ hne)
    · exact hprev c (mem_cons_of_mem _ hc)

variable [DecidableEq N]

omit [DecidableEq N] in
/-- A circle depends on its own nodes only. -/
lemma congr {next' prev' : N → N} (h : IsCircle next prev head l) (hnext : ∀ a ∈ l, next' a = next a)
    (hprev : ∀ a ∈ l, prev' a = prev a) : IsCircle next' prev' head l := by
  refine ⟨h.head_eq, h.nodup, ?_⟩
  cases l with
  | nil => trivial
  | cons x m =>
    obtain ⟨hchain, hclose⟩ := (cons_iff rfl).1 h.chain
    refine (cons_iff rfl).2 ⟨chain_congr hchain h.nodup (fun a ha _ => hnext a ha) fun b hb =>
      hprev b (mem_cons_of_mem _ hb), ?_, ?_⟩
    · exact (hnext _ (getLast_mem _)).trans hclose.1
    · exact (hprev x mem_cons_self).trans hclose.2

/-! ## A new last node -/

lemma single (next prev : N → N) (y : N) :
    IsCircle (Function.update next y y) (Function.update prev y y) (some y) [y] :=
  ⟨rfl, nodup_singleton y, (Cycle.chain_singleton _ y).2 ⟨update_self .., update_self ..⟩⟩

/-- A node that is put behind the last one. -/
theorem push {y : N} (h : IsCircle next prev (some x) l) (hy : y ∉ l) :
    IsCircle (Function.update (Function.update next y x) (prev x) y)
      (Function.update (Function.update prev y (prev x)) x y) (some x) (l ++ [y]) := by
  obtain ⟨m, rfl⟩ : ∃ m, l = x :: m := by
    cases l with
    | nil => exact absurd h.head_eq (by simp)
    | cons x' m => exact ⟨m, by rw [Option.some.inj h.head_eq]⟩
  have hlast := h.prev_head
  obtain ⟨hchain, -⟩ := (cons_iff hlast.symm).1 h.chain
  have hyx : y ≠ x := fun heq => hy (heq ▸ mem_cons_self)
  have hmem : prev x ∈ x :: m := hlast ▸ getLast_mem _
  have hylast : y ≠ prev x := fun heq => hy (heq ▸ hmem)
  refine ⟨rfl, nodup_append.2 ⟨h.nodup, nodup_singleton y, fun a ha b hb => ?_⟩, ?_⟩
  · rw [mem_singleton.1 hb]
    exact fun heq => hy (heq ▸ ha)
  rw [cons_append, cons_iff (z := y) (by simp), ← cons_append, isChain_append]
  refine ⟨⟨chain_congr hchain h.nodup (fun a ha hne => ?_) fun b hb => ?_, isChain_singleton y, ?_⟩, ?_, update_self ..⟩
  · have hay : a ≠ y := fun heq => hy (heq ▸ ha)
    rw [update_of_ne (hlast ▸ hne), update_of_ne hay]
  · have hbx : b ≠ x := fun heq => (nodup_cons.1 h.nodup).1 (heq ▸ hb)
    have hby : b ≠ y := fun heq => hy (heq ▸ mem_cons_of_mem _ hb)
    rw [update_of_ne hbx, update_of_ne hby]
  · intro z hz w hw
    rw [getLast?_eq_some_getLast (cons_ne_nil x m), ← hlast] at hz
    cases hz
    obtain rfl : y = w := by simpa using hw
    exact ⟨update_self .., by rw [update_of_ne hyx, update_self]⟩
  · rw [update_of_ne hylast, update_self]

/-! ## Taking a node out -/

section

omit [DecidableEq N]

/-- The circle that starts with a node of it. -/
lemma rotate {before after : List N} (h : IsCircle next prev head (before ++ x :: after)) :
    Cycle.Chain (LinksTo next prev) (x :: (after ++ before) : Cycle N) ∧ (x :: (after ++ before)).Nodup := by
  have hrotated : (before ++ x :: after : List N) ~r (x :: (after ++ before)) := ⟨before.length, by simp⟩
  exact ⟨Cycle.coe_eq_coe.2 hrotated ▸ h.chain, hrotated.nodup_iff.1 h.nodup⟩

lemma neighbours_mem (h : IsCircle next prev head l) (hx : x ∈ l) : next x ∈ l ∧ prev x ∈ l := by
  obtain ⟨before, after, rfl⟩ := append_of_mem hx
  obtain ⟨hchain, -⟩ := h.rotate
  have hmem (y : N) (hy : y ∈ x :: (after ++ before)) : y ∈ before ++ x :: after := by
    simp only [mem_cons, mem_append] at hy ⊢
    tauto
  obtain ⟨hall, hclose⟩ := (cons_iff rfl).1 hchain
  constructor
  · cases hrest : after ++ before with
    | nil =>
      rw [hrest, Cycle.chain_singleton] at hchain
      exact hmem _ (hchain.1.symm ▸ mem_cons_self)
    | cons c m =>
      rw [hrest] at hall
      refine hmem _ ?_
      rw [hrest, (isChain_cons_cons.1 hall).1.1]
      simp
  · exact hmem _ (hclose.2.symm ▸ getLast_mem _)

lemma next_eq_self_iff (h : IsCircle next prev head l) (hx : x ∈ l) : next x = x ↔ l = [x] := by
  obtain ⟨before, after, rfl⟩ := append_of_mem hx
  obtain ⟨hchain, hnodup⟩ := h.rotate
  cases hrest : after ++ before with
  | nil =>
    rw [hrest, Cycle.chain_singleton] at hchain
    obtain ⟨rfl, rfl⟩ := append_eq_nil_iff.1 hrest
    simp [hchain.1]
  | cons c m =>
    rw [hrest] at hchain hnodup
    have hne : c ≠ x := fun heq => (nodup_cons.1 hnodup).1 (heq ▸ mem_cons_self)
    have hnext : next x = c := hchain.rel.1
    constructor
    · exact fun heq => absurd (hnext.symm.trans heq) hne
    · intro heq
      have hlength := congrArg List.length heq
      have hrest' := congrArg List.length hrest
      simp only [List.length_append, length_cons, length_nil] at hlength hrest'
      omega

end

/-- A node that is taken out from between its neighbours. -/
theorem remove (h : IsCircle next prev head l) (hx : x ∈ l) (hne : next x ≠ x) :
    IsCircle (Function.update next (prev x) (next x)) (Function.update prev (next x) (prev x))
      (if head = some x then some (next x) else head) (l.erase x) := by
  obtain ⟨before, after, rfl⟩ := append_of_mem hx
  have hbefore : x ∉ before := fun hmem => by
    have := nodup_middle.1 h.nodup
    exact (nodup_cons.1 this).1 (mem_append_left _ hmem)
  have herase : (before ++ x :: after).erase x = before ++ after := by
    simp [erase_append_right _ hbefore]
  obtain ⟨hchain, hnodup⟩ := h.rotate
  have hrotated : (before ++ after : List N) ~r (after ++ before) := isRotated_append
  rw [herase]
  cases hrest : after ++ before with
  | nil =>
    rw [hrest, Cycle.chain_singleton] at hchain
    exact absurd hchain.1 hne
  | cons c m =>
    rw [hrest] at hchain hnodup hrotated
    obtain ⟨-, hnodup'⟩ := nodup_cons.1 hnodup
    obtain ⟨hall, hclose⟩ := (cons_iff rfl).1 hchain
    obtain ⟨hfirst, hinner⟩ := isChain_cons_cons.1 hall
    have hlast : (x :: c :: m).getLast (cons_ne_nil x _) = (c :: m).getLast (cons_ne_nil c m) :=
      getLast_cons (cons_ne_nil c m)
    have hprev : prev x = (c :: m).getLast (cons_ne_nil c m) := hclose.2.trans hlast
    have hnext : next x = c := hfirst.1
    refine ⟨?_, hrotated.nodup_iff.2 hnodup', ?_⟩
    · rw [h.head_eq]
      cases before with
      | nil =>
        rw [append_nil] at hrest
        refine (if_pos rfl).trans ?_
        rw [hrest, hnext]
        rfl
      | cons y before =>
        have hyx : y ≠ x := fun heq => hbefore (heq ▸ mem_cons_self)
        exact if_neg fun heq => hyx (Option.some.inj heq)
    · rw [Cycle.coe_eq_coe.2 hrotated, cons_iff rfl, hnext, hprev]
      refine ⟨chain_congr hinner hnodup' (fun a _ hne => update_of_ne hne _ _) fun b hb => ?_,
        update_self .., update_self ..⟩
      have hbc : b ≠ c := by
        rintro rfl
        exact (nodup_cons.1 hnodup').1 hb
      exact update_of_ne hbc _ _

end IsCircle
