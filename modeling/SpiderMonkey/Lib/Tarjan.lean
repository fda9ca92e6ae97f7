import SpiderMonkey.Lib.Exploration

/-!
# Strongly connected components by depth-first search

The search visits each node once, numbers the nodes as it finds them and keeps those whose component
is not complete on a stack.  A node's low link is the least number among those nodes of the stack
that it is known to lead back to; a node that leads back no further than to itself completes the
component that lies above it.

`Visit` says what the visit of one node does to the stack and to the completed nodes, and `Scan` what
has happened while some of the edges of a node have been followed.  The rules follow the way such
searches are written: a scan starts with the node alone, it is extended by a visit or by an edge to a
node that has been found before, and it ends with the node left on the stack (`Scan.leave`) or with a
component (`Scan.pop`).  How numbers and low links are stored is left open.  `Abort` is for a search
that is given up in the middle.
-/

open Relation

namespace Tarjan

open List

variable {N : Type*} {E : N → N → Prop}

/-- The nodes that lead to each other. -/
def component (E : N → N → Prop) (v : N) : Set N := {x | ReflTransGen E v x ∧ ReflTransGen E x v}

/-- The stack, bottom first, and the nodes of complete components. -/
structure State (N : Type*) where
  stack : List N
  done : Set N

namespace State

def visited (s : State N) : Set N := {x | x ∈ s.stack} ∪ s.done

def push (s : State N) (v : N) : State N := ⟨s.stack ++ [v], s.done⟩

lemma visited_push (s : State N) (v : N) : (s.push v).visited = insert v s.visited := by
  ext x
  simp only [visited, push, Set.mem_union, Set.mem_ofPred_eq, mem_append, mem_singleton, Set.mem_insert_iff]
  tauto

end State

/-- The stack is ordered by number, and nothing leads out of the complete components. -/
structure Valid (E : N → N → Prop) (idx : N → ℕ) (s : State N) : Prop where
  sorted : s.stack.Pairwise fun x y => idx x < idx y
  disjoint : ∀ x ∈ s.stack, x ∉ s.done
  closed : ∀ x ∈ s.done, ∀ y, E x y → y ∈ s.done

/-- The visit of `v` that takes the search from `s` to `s'`, leaves the nodes `ext` on the stack and
gives `v` the low link `low`. -/
structure Visit (E : N → N → Prop) (v : N) (idx : N → ℕ) (s : State N) (idx' : N → ℕ)
    (s' : State N) (ext : List N) (low : ℕ) : Prop where
  notMem : v ∉ s.visited
  valid : Valid E idx' s'
  idx_eq : ∀ x ∈ s.stack, idx' x = idx x
  done_subset : s.done ⊆ s'.done
  explores : Explores E {v} s.visited s'.visited
  stack_eq : s'.stack = s.stack ++ ext
  /-- What is left leads back to nodes below. -/
  returns : ∀ x ∈ ext, ∃ y ∈ s.stack, ReflTransGen E x y
  low_le : ∀ x ∈ ext, ∀ y ∈ s.stack, E x y → low ≤ idx' y
  low_mem : (ext = [] ∧ ∀ y ∈ s.stack, idx' y < low) ∨ (ext ≠ [] ∧ ∃ y ∈ s.stack, idx' y = low ∧ ReflTransGen E v y)

/-- The visit of `v` from `s` to `s'`, of whose edges those to `W` have been followed. -/
structure Scan (E : N → N → Prop) (v : N) (W : Set N) (idx : N → ℕ) (s : State N) (idx' : N → ℕ)
    (s' : State N) (ext : List N) (low : ℕ) : Prop where
  notMem : v ∉ s.visited
  valid : Valid E idx' s'
  idx_eq : ∀ x ∈ s.stack, idx' x = idx x
  done_subset : s.done ⊆ s'.done
  explores : Explores E W (insert v s.visited) s'.visited
  stack_eq : s'.stack = s.stack ++ v :: ext
  returns : ∀ x ∈ ext, ∃ y, (y ∈ s.stack ∨ y = v) ∧ ReflTransGen E x y
  low_le : ∀ x ∈ ext, ∀ y, y ∈ s.stack ∨ y = v → E x y → low ≤ idx' y
  low_le_self : ∀ y ∈ s.stack, y ∈ W → low ≤ idx' y
  low_mem : ∃ y, (y ∈ s.stack ∨ y = v) ∧ idx' y = low ∧ ReflTransGen E v y

namespace Valid

variable {idx idx' : N → ℕ} {s : State N} {x v : N} {l ext : List N}

lemma done_of_reachable (h : Valid E idx s) (hx : x ∈ s.done) {y : N} (hr : ReflTransGen E x y) : y ∈ s.done := by
  induction hr with
  | refl => exact hx
  | tail _ hE ih => exact h.closed _ ih _ hE

lemma congr (h : Valid E idx s) (heq : ∀ x ∈ s.stack, idx' x = idx x) : Valid E idx' s where
  sorted := by
    refine h.sorted.imp_of_mem fun hx hy hxy => ?_
    simp [heq, hx, hy, hxy]
  disjoint := h.disjoint
  closed := h.closed

lemma push (h : Valid E idx s) (hv : v ∉ s.visited) (heq : ∀ x ∈ s.stack, idx' x = idx x)
    (hlt : ∀ x ∈ s.stack, idx' x < idx' v) : Valid E idx' (s.push v) where
  sorted := by
    refine pairwise_append.mpr ⟨(h.congr heq).sorted, pairwise_singleton _ _, fun x hx y hy => ?_⟩
    · rw [mem_singleton.mp hy]
      exact hlt x hx
  disjoint := by
    intro x hx hd
    obtain hx | hx := mem_append.mp hx
    · exact h.disjoint x hx hd
    · rw [mem_singleton.mp hx] at hd
      exact hv (.inr hd)
  closed := h.closed

end Valid

lemma Visit.congr {idx idx₁ idx₂ : N → ℕ} {s s' : State N} {v : N} {ext : List N} {low : ℕ}
    (h : Visit E v idx s idx₁ s' ext low) (heq : ∀ x ∈ s'.stack, idx₂ x = idx₁ x) :
    Visit E v idx s idx₂ s' ext low := by
  have hs : ∀ x ∈ s.stack, idx₂ x = idx₁ x := by
    intro x hx
    apply heq
    rw [h.stack_eq]
    simp [hx]
  refine ⟨h.notMem, h.valid.congr heq, ?_, h.done_subset, h.explores, h.stack_eq, h.returns, ?_, ?_⟩
  · intro x hx
    rw [hs x hx, h.idx_eq x hx]
  · intro x hx y hy hxy
    rw [hs y hy]
    exact h.low_le x hx y hy hxy
  · obtain ⟨hnil, hlt⟩ | ⟨hne, y, hy, hlow, hr⟩ := h.low_mem
    · refine .inl ⟨hnil, fun y hy => ?_⟩
      simp [hs, hy, hlt]
    · exact .inr ⟨hne, y, hy, (hs y hy).trans hlow, hr⟩

namespace Scan

variable {idx idx₁ idx₂ : N → ℕ} {s s₁ s₂ : State N} {v w : N} {W : Set N} {ext ext₂ : List N}
  {low low₂ c : ℕ}

section

variable (h : Scan E v W idx s idx₁ s₁ ext low)

include h

lemma idx_lt : (∀ y ∈ s.stack, idx₁ y < idx₁ v) ∧ (∀ x ∈ ext, idx₁ v < idx₁ x) ∧
      ∀ y ∈ s.stack, ∀ x ∈ ext, idx₁ y < idx₁ x := by
  have hsorted := h.valid.sorted
  rw [h.stack_eq, pairwise_append] at hsorted
  obtain ⟨-, hext, hlt⟩ := hsorted
  exact ⟨fun y hy => hlt y hy v mem_cons_self, (pairwise_cons.mp hext).1,
    fun y hy x hx => hlt y hy x (mem_cons_of_mem _ hx)⟩

lemma low_le_idx : low ≤ idx₁ v := by
  obtain ⟨y, hy | rfl, rfl, -⟩ := h.low_mem
  · exact (h.idx_lt.1 y hy).le
  · exact le_rfl

lemma mem_stack {x : N} : x ∈ s₁.stack ↔ (x ∈ s.stack ∨ x = v) ∨ x ∈ ext := by
  simp [h.stack_eq, or_assoc]

lemma notMem_of_mem_ext {x : N} (hx : x ∈ ext) : x ∉ insert v s.visited := by
  obtain ⟨-, hv, hlt⟩ := h.idx_lt
  rintro (rfl | hs | hd)
  · exact lt_irrefl _ (hv x hx)
  · exact lt_irrefl _ (hlt x hs x hx)
  · exact h.valid.disjoint x (h.mem_stack.mpr (.inr hx)) (h.done_subset hd)

lemma reachable_of_mem_ext (hW : ∀ w ∈ W, E v w) {x : N} (hx : x ∈ ext) : ReflTransGen E v x := by
  obtain ⟨w, hw, hr⟩ := h.explores.reachable x (.inl (h.mem_stack.mpr (.inr hx)))
    (h.notMem_of_mem_ext hx)
  exact .head (hW w hw) hr

end

lemma start (h : Valid E idx s) (hv : v ∉ s.visited) (heq : ∀ x ∈ s.stack, idx₁ x = idx x)
    (hlt : ∀ x ∈ s.stack, idx₁ x < idx₁ v) :
    Scan E v ∅ idx s idx₁ (s.push v) [] (idx₁ v) where
  notMem := hv
  valid := h.push hv heq hlt
  idx_eq := heq
  done_subset := subset_rfl
  explores := by
    rw [State.visited_push]
    exact .nil
  stack_eq := rfl
  returns := fun x hx => absurd hx not_mem_nil
  low_le := fun x hx => absurd hx not_mem_nil
  low_le_self := fun y _ hy => absurd hy (Set.notMem_empty y)
  low_mem := ⟨v, .inr rfl, rfl, .refl⟩

section

variable (h : Scan E v W idx s idx₁ s₁ ext low)

include h

/-- An edge to a node of a complete component adds nothing. -/
lemma edge_done (hw : w ∈ s₁.done) : Scan E v (W ∪ {w}) idx s idx₁ s₁ ext low :=
  { h with
    explores := h.explores.append (.visited (.inr hw))
    low_le_self := by
      rintro y hy (hW | rfl)
      · exact h.low_le_self y hy hW
      · exact absurd hw (h.valid.disjoint y (h.mem_stack.mpr (.inl (.inl hy)))) }

/-- An edge to a node of the stack lowers the low link to a number that this node leads back to. -/
lemma edge_stack (hE : E v w) (hw : w ∈ s₁.stack)
    (hc : c ≤ idx₁ w) (hback : ∃ y ∈ s₁.stack, idx₁ y = c ∧ ReflTransGen E w y) :
    Scan E v (W ∪ {w}) idx s idx₁ s₁ ext (Min.min low c) :=
  { h with
    explores := h.explores.append (.visited (.inl hw))
    low_le := fun x hx y hy hxy => (min_le_left _ _).trans (h.low_le x hx y hy hxy)
    low_le_self := by
      rintro y hy (hW | rfl)
      · exact (min_le_left _ _).trans (h.low_le_self y hy hW)
      · omega
    low_mem := by
      by_cases hlow : low ≤ c
      · rw [min_eq_left hlow]
        exact h.low_mem
      · obtain ⟨y, hy, rfl, hr⟩ := hback
        rw [min_eq_right (not_le.mp hlow).le]
        obtain hy | hy := h.mem_stack.mp hy
        · exact ⟨y, hy, rfl, .head hE hr⟩
        · exact absurd (h.low_le_idx.trans (h.idx_lt.2.1 y hy).le) hlow }

/-- A visit that leaves nothing on the stack gives no lower link. -/
lemma low_le_of_visit (h₂ : Visit E w idx₁ s₁ idx₂ s₂ [] low₂) : low ≤ low₂ := by
  obtain ⟨y, hy, rfl, -⟩ := h.low_mem
  have hys := h.mem_stack.mpr (.inl hy)
  obtain ⟨-, hlt⟩ | ⟨hne, -⟩ := h₂.low_mem
  · rw [← h₂.idx_eq y hys]
    exact (hlt y hys).le
  · exact absurd rfl hne

/-- An edge to a node that has not been found visits it. -/
lemma edge_visit (hE : E v w) (h₂ : Visit E w idx₁ s₁ idx₂ s₂ ext₂ low₂) :
    Scan E v (W ∪ {w}) idx s idx₂ s₂ (ext ++ ext₂) (Min.min low low₂) where
  notMem := h.notMem
  valid := h₂.valid
  idx_eq := by
    intro x hx
    rw [h₂.idx_eq x (h.mem_stack.mpr (.inl (.inl hx))), h.idx_eq x hx]
  done_subset := h.done_subset.trans h₂.done_subset
  explores := h.explores.append h₂.explores
  stack_eq := by simp [h₂.stack_eq, h.stack_eq]
  returns := by
    intro x hx
    obtain hx | hx := mem_append.mp hx
    · exact h.returns x hx
    · obtain ⟨y, hy, hr⟩ := h₂.returns x hx
      obtain hy | hy := h.mem_stack.mp hy
      · exact ⟨y, hy, hr⟩
      · obtain ⟨z, hz, hr'⟩ := h.returns y hy
        exact ⟨z, hz, hr.trans hr'⟩
  low_le := by
    intro x hx y hy hxy
    have hys := h.mem_stack.mpr (.inl hy)
    obtain hx | hx := mem_append.mp hx
    · rw [h₂.idx_eq y hys]
      exact (min_le_left _ _).trans (h.low_le x hx y hy hxy)
    · exact (min_le_right _ _).trans (h₂.low_le x hx y hys hxy)
  low_le_self := by
    rintro y hy (hW | rfl)
    · rw [h₂.idx_eq y (h.mem_stack.mpr (.inl (.inl hy)))]
      exact (min_le_left _ _).trans (h.low_le_self y hy hW)
    · exact absurd (.inl (h.mem_stack.mpr (.inl (.inl hy)))) h₂.notMem
  low_mem := by
    by_cases hlow : low ≤ low₂
    · obtain ⟨y, hy, hy', hr⟩ := h.low_mem
      rw [min_eq_left hlow]
      exact ⟨y, hy, (h₂.idx_eq y (h.mem_stack.mpr (.inl hy))).trans hy', hr⟩
    · -- The visit has found a lower link, which belongs to a node below `v`.
      rw [min_eq_right (not_le.mp hlow).le]
      obtain ⟨rfl, -⟩ | ⟨-, y, hy, hy', hr⟩ := h₂.low_mem
      · exact absurd (h.low_le_of_visit h₂) hlow
      · obtain hyv | hye := h.mem_stack.mp hy
        · exact ⟨y, hyv, hy', .head hE hr⟩
        · rw [← hy', h₂.idx_eq y hy] at hlow
          exact absurd (h.low_le_idx.trans (h.idx_lt.2.1 y hye).le) hlow

end

section

variable (h : Scan E v {w | E v w} idx s idx₁ s₁ ext low)

include h

/-- A node that leads further back than to itself stays on the stack. -/
lemma leave (hlow : low ≠ idx₁ v) : Visit E v idx s idx₁ s₁ (v :: ext) low := by
  obtain ⟨y, hy, hidx, hr⟩ : ∃ y ∈ s.stack, idx₁ y = low ∧ ReflTransGen E v y := by
    obtain ⟨y, hy | rfl, hidx, hr⟩ := h.low_mem
    · exact ⟨y, hy, hidx, hr⟩
    · omega
  refine ⟨h.notMem, h.valid, h.idx_eq, h.done_subset, .node h.explores, h.stack_eq, ?_, ?_,
    .inr ⟨cons_ne_nil _ _, y, hy, hidx, hr⟩⟩
  · intro x hx
    obtain rfl | hx := mem_cons.mp hx
    · exact ⟨y, hy, hr⟩
    · obtain ⟨z, hz | rfl, hr'⟩ := h.returns x hx
      · exact ⟨z, hz, hr'⟩
      · exact ⟨y, hy, hr'.trans hr⟩
  · intro x hx y hy hxy
    obtain rfl | hx := mem_cons.mp hx
    · exact h.low_le_self y hy hxy
    · exact h.low_le x hx y (.inl hy) hxy

/-- Nothing leads out of the nodes above a node that leads no further back, except to complete
components. -/
lemma closed_above (hlow : low = idx₁ v) {x y : N} (hx : x ∈ s₁.done ∪ {x | x ∈ v :: ext}) (hr : ReflTransGen E x y) :
    y ∈ s₁.done ∪ {x | x ∈ v :: ext} := by
  induction hr with
  | refl => exact hx
  | @tail y z _ hE ih =>
    obtain hy | hy := ih
    · exact .inl (h.valid.closed y hy z hE)
    -- The edge leads to a node that has been found, and not to one below `v`.
    have hfound : z ∈ s₁.visited := by
      obtain rfl | hy := mem_cons.mp hy
      · exact h.explores.roots_subset hE
      · exact h.explores.closed y (.inl (h.mem_stack.mpr (.inr hy))) (h.notMem_of_mem_ext hy) z hE
    have hbelow : z ∉ s.stack := by
      intro hz
      have hlt := h.idx_lt.1 z hz
      obtain rfl | hy := mem_cons.mp hy
      · exact absurd (h.low_le_self z hz hE) (by omega)
      · exact absurd (h.low_le y hy z (.inl hz) hE) (by omega)
    obtain hz | hz := hfound
    · obtain (hz | rfl) | hz := h.mem_stack.mp hz
      · exact absurd hz hbelow
      · exact .inr mem_cons_self
      · exact .inr (mem_cons_of_mem _ hz)
    · exact .inl hz

/-- The nodes above a node that leads no further back are its component. -/
lemma component_eq (hlow : low = idx₁ v) : component E v = {x | x ∈ v :: ext} := by
  have hv : v ∈ s₁.done ∪ {x | x ∈ v :: ext} := .inr mem_cons_self
  have hvs : v ∈ s₁.stack := h.mem_stack.mpr (.inl (.inr rfl))
  ext x
  constructor
  · rintro ⟨hvx, hxv⟩
    obtain hx | hx := h.closed_above hlow hv hvx
    · exact absurd (h.valid.done_of_reachable hx hxv) (h.valid.disjoint v hvs)
    · exact hx
  · intro hx
    obtain rfl | hx' := mem_cons.mp hx
    · exact ⟨.refl, .refl⟩
    refine ⟨h.reachable_of_mem_ext (fun _ hw => hw) hx', ?_⟩
    obtain ⟨y, hy | rfl, hr⟩ := h.returns x hx'
    · -- A path from above `v` does not lead below it.
      obtain hd | hs := h.closed_above hlow (.inr hx) hr
      · exact absurd hd (h.valid.disjoint y (h.mem_stack.mpr (.inl (.inl hy))))
      · obtain rfl | hs := mem_cons.mp hs
        · omega
        · exact absurd (.inr (.inl hy)) (h.notMem_of_mem_ext hs)
    · exact hr

/-- A node that leads no further back than to itself completes its component. -/
lemma pop (hlow : low = idx₁ v) : Visit E v idx s idx₁ ⟨s.stack, s₁.done ∪ component E v⟩ [] low := by
  have hcomponent := h.component_eq hlow
  have hvisited : State.visited ⟨s.stack, s₁.done ∪ component E v⟩ = s₁.visited := by
    ext x
    simp only [State.visited, hcomponent, Set.mem_union, Set.mem_ofPred_eq, h.mem_stack, mem_cons]
    tauto
  refine ⟨h.notMem, ⟨?_, ?_, ?_⟩, h.idx_eq, fun x hx => .inl (h.done_subset hx), ?_,
    (append_nil _).symm, fun x hx => absurd hx not_mem_nil,
    fun x hx => absurd hx not_mem_nil, .inl ⟨rfl, fun y hy => hlow ▸ h.idx_lt.1 y hy⟩⟩
  · have hsorted := h.valid.sorted
    rw [h.stack_eq] at hsorted
    exact (pairwise_append.mp hsorted).1
  · rintro x hx (hd | hc)
    · exact h.valid.disjoint x (h.mem_stack.mpr (.inl (.inl hx))) hd
    · rw [hcomponent] at hc
      obtain rfl | hc := mem_cons.mp hc
      · exact h.notMem (.inl hx)
      · exact h.notMem_of_mem_ext hc (.inr (.inl hx))
  · intro x hx y hE
    rw [hcomponent] at hx ⊢
    exact h.closed_above hlow hx (.single hE)
  · rw [hvisited]
    exact .node h.explores

end

end Scan

/-! ## Searches that are given up -/

/-- The visit of `v` is given up in `s'`, while the nodes of `busy` are being visited.  Whatever it
leaves on the stack leads back to nodes below or is in the component of a busy node. -/
structure Abort (E : N → N → Prop) (v : N) (busy : Set N) (idx : N → ℕ) (s : State N)
    (idx' : N → ℕ) (s' : State N) (ext : List N) : Prop where
  valid : Valid E idx' s'
  idx_eq : ∀ x ∈ s.stack, idx' x = idx x
  done_subset : s.done ⊆ s'.done
  stack_eq : s'.stack = s.stack ++ ext
  reachable : ∀ x ∈ ext, ReflTransGen E v x
  returns : ∀ x ∈ ext, (∃ y ∈ s.stack, ReflTransGen E x y) ∨ ∃ g ∈ busy, x ∈ component E g

namespace Abort

variable {idx idx₁ idx₂ : N → ℕ} {s s₁ s₂ : State N} {v w : N} {W busy : Set N}
  {ext ext₂ : List N} {low : ℕ}

lemma before (h : Valid E idx s) (v : N) (heq : ∀ x ∈ s.stack, idx₁ x = idx x) : Abort E v ∅ idx s idx₁ s [] where
  valid := h.congr heq
  idx_eq := heq
  done_subset := subset_rfl
  stack_eq := (append_nil _).symm
  reachable := nofun
  returns := nofun

lemma visit (h : Scan E v W idx s idx₁ s₁ ext low) (hW : ∀ w ∈ W, E v w) (hE : E v w)
    (h₂ : Abort E w busy idx₁ s₁ idx₂ s₂ ext₂) :
    Abort E v (insert v busy) idx s idx₂ s₂ (v :: ext ++ ext₂) := by
  -- A node that leads back to `v` is in its component.
  have hback : ∀ x, ReflTransGen E v x → (∃ y, (y ∈ s.stack ∨ y = v) ∧ ReflTransGen E x y) →
      (∃ y ∈ s.stack, ReflTransGen E x y) ∨ ∃ g ∈ insert v busy, x ∈ component E g := by
    rintro x hvx ⟨y, hy | rfl, hr⟩
    · exact .inl ⟨y, hy, hr⟩
    · exact .inr ⟨y, .inl rfl, hvx, hr⟩
  have hext : ∀ x ∈ v :: ext, ReflTransGen E v x ∧ ∃ y, (y ∈ s.stack ∨ y = v) ∧ ReflTransGen E x y := by
    intro x hx
    obtain rfl | hx := mem_cons.mp hx
    · exact ⟨.refl, x, .inr rfl, .refl⟩
    · exact ⟨h.reachable_of_mem_ext hW hx, h.returns x hx⟩
  have hstack : ∀ y ∈ s₁.stack, ∃ z, (z ∈ s.stack ∨ z = v) ∧ ReflTransGen E y z := by
    intro y hy
    obtain hy | hy := h.mem_stack.mp hy
    · exact ⟨y, hy, .refl⟩
    · exact h.returns y hy
  refine ⟨h₂.valid, ?_, h.done_subset.trans h₂.done_subset, ?_, ?_, ?_⟩
  · intro x hx
    rw [h₂.idx_eq x (h.mem_stack.mpr (.inl (.inl hx))), h.idx_eq x hx]
  · simp [h₂.stack_eq, h.stack_eq]
  · intro x hx
    obtain hx | hx := mem_append.mp hx
    · exact (hext x hx).1
    · exact .head hE (h₂.reachable x hx)
  · intro x hx
    obtain hx | hx := mem_append.mp hx
    · exact hback x (hext x hx).1 (hext x hx).2
    · obtain ⟨y, hy, hr⟩ | ⟨g, hg, hc⟩ := h₂.returns x hx
      · obtain ⟨z, hz, hr'⟩ := hstack y hy
        exact hback x (.head hE (h₂.reachable x hx)) ⟨z, hz, hr.trans hr'⟩
      · exact .inr ⟨g, .inr hg, hc⟩

lemma self (h : Scan E v W idx s idx₁ s₁ ext low) (hW : ∀ w ∈ W, E v w) : Abort E v {v} idx s idx₁ s₁ (v :: ext) where
  valid := h.valid
  idx_eq := h.idx_eq
  done_subset := h.done_subset
  stack_eq := h.stack_eq
  reachable := by
    intro x hx
    obtain rfl | hx := mem_cons.mp hx
    · exact .refl
    · exact h.reachable_of_mem_ext hW hx
  returns := by
    intro x hx
    obtain rfl | hx' := mem_cons.mp hx
    · exact .inr ⟨x, rfl, .refl, .refl⟩
    · obtain ⟨y, hy | rfl, hr⟩ := h.returns x hx'
      · exact .inl ⟨y, hy, hr⟩
      · exact .inr ⟨y, rfl, h.reachable_of_mem_ext hW hx', hr⟩

end Abort

end Tarjan
