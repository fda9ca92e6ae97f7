import SpiderMonkey.Gc.ComponentSearch

/-!
# The results of the component finder

`getResultsList` returns all nodes that were reached, group by group, such that no edge leads from a
later group to an earlier one.  If the native stack suffices the groups are the strongly connected
components of the nodes that were added.  The marks are reset, so that the nodes can be searched again.

The clock is an unsigned 32-bit number, whose greatest value marks finished nodes.  It suffices for
`2 ^ 32 - 1` nodes (`sweepGroups_correct`) and not for one more (`not_sortsComponents_clock`).
-/

namespace SpiderMonkey

open Relation Tarjan List Function Option

namespace ComponentFinder

open Set

variable {N : Type} {f f₁ f₂ : ComponentFinder N} {st st₁ : List N}
  {groups groups₁ : List (List N)} {time time₁ : ℕ} {v : N}

/-- A finder without nodes, all of whose nodes are unmarked. -/
structure Fresh (f : ComponentFinder N) : Prop where
  discoveryTime : ∀ x, f.gcDiscoveryTime x = Undefined
  lowLink : ∀ x, f.gcLowLink x = Undefined
  stack : f.stack = none
  firstComponent : f.firstComponent = none
  stackFull : f.stackFull = false

/-- The nodes that the calls add. -/
def added (cs : List (Call N)) : Set N := {v | .addNode v ∈ cs}

/-! ## The calls -/

/-- The finder between two calls, where `roots` have been added. -/
structure Idle (E : N → N → Prop) (stackOk : ℕ → Bool) (oneComponent : Prop) (roots : Set N)
    (f : ComponentFinder N) (st : List N) (groups : List (List N)) (time : ℕ) : Prop where
  inv : Inv E f st groups time
  collects : Collects E roots ∅ (searchState st groups).visited
  full : f.stackFull = true → oneComponent ∨ ∃ k, stackOk k = false
  idle : f.stackFull = false → st = [] ∧ Explores E roots ∅ (searchState st groups).visited

lemma searchState_nil : (searchState ([] : List N) []).visited = ∅ :=
  eq_empty_of_forall_notMem fun _ h => h.elim not_mem_nil not_mem_nil

lemma Fresh.inv [Finite N] (h : f.Fresh) (hpos : 0 < f.clock.toNat) (E : N → N → Prop)
    (hcard : f.clock.toNat + Nat.card N ≤ 2 ^ 32) : Inv E f [] [] f.clock.toNat where
  stack_list := h.stack
  result_list := h.firstComponent
  nodup := nodup_nil
  linked := trivial
  ordered := List.Pairwise.nil
  components := fun g hg => absurd hg not_mem_nil
  valid := ⟨List.Pairwise.nil, fun x hx => absurd hx not_mem_nil, fun x hx => absurd hx not_mem_nil⟩
  undefined_iff := by
    intro x
    rw [searchState_nil]
    exact ⟨fun _ => notMem_empty x, fun _ => h.discoveryTime x⟩
  lowLink_undefined := fun x _ => h.lowLink x
  finished := fun x hx => absurd hx not_mem_nil
  clock_eq := by simp
  time_pos := hpos
  index_lt := fun x hx => absurd hx not_mem_nil
  time_le := by
    have hle := remaining_le_ncard finite_univ (S := (searchState ([] : List N) []).visited)
    rw [ncard_univ] at hle
    omega

section Calls

variable [DecidableEq N] [Finite N] {gcGraphEdges : N → List N} {stackOk : ℕ → Bool} {limit : ℕ}
  {one : Prop} {roots : Set N}

lemma addNode_spec (hlimit : Nat.card N < limit)
    (h : Idle (Edge gcGraphEdges) stackOk one roots f st groups time) (v : N) :
    ∃ f' st' groups' time', f.addNode gcGraphEdges stackOk limit v = some f' ∧
      Idle (Edge gcGraphEdges) stackOk one (roots ∪ {v}) f' st' groups' time' := by
  unfold addNode
  by_cases hv : f.gcDiscoveryTime v = Undefined
  · have hnot := (h.inv.undefined_iff v).mp hv
    have hfuel : remaining univ (searchState st groups).visited < limit := by
      have hle := remaining_le_ncard finite_univ (S := (searchState st groups).visited)
      rw [ncard_univ] at hle
      omega
    obtain ⟨f', st', groups', time', heq, hp⟩ :=
      @processNode_spec N _ _ gcGraphEdges stackOk limit hlimit limit v f st groups time h.inv hnot
        hfuel
    refine ⟨f', st', groups', time', ?_, hp.inv, h.collects.append hp.collects, ?_, fun hf => ?_⟩
    · rw [if_pos hv, if_pos (h.inv.lowLink_undefined v hv)]
      exact heq
    · exact fun hf => (hp.full hf).elim h.full .inr
    · obtain ⟨hf, ⟨ext, hvisit⟩, -⟩ := hp.visit hf
      obtain ⟨hst, hexplores⟩ := h.idle hf
      -- Nothing is left on the stack, which has been empty before.
      subst hst
      have hext : ext = [] := by
        cases ext with
        | nil => rfl
        | cons x ext =>
          obtain ⟨y, hy, -⟩ := hvisit.returns x mem_cons_self
          cases hy
      have hstack := hvisit.stack_eq
      rw [hext] at hstack
      exact ⟨hstack, hexplores.append hvisit.explores⟩
  · have hmem : v ∈ (searchState st groups).visited := by
      by_contra hn
      exact hv ((h.inv.undefined_iff v).mpr hn)
    refine ⟨f, st, groups, time, if_neg hv, h.inv, h.collects.append (.visited hmem), h.full, fun hf => ?_⟩
    exact ⟨(h.idle hf).1, (h.idle hf).2.append (.visited hmem)⟩

lemma calls_spec (hlimit : Nat.card N < limit) : ∀ (cs : List (Call N)) {roots : Set N}
    {f : ComponentFinder N} {st : List N} {groups : List (List N)} {time : ℕ},
    (.useOneComponent ∈ cs → one) →
    Idle (Edge gcGraphEdges) stackOk one roots f st groups time →
    ∃ f' st' groups' time', calls gcGraphEdges stackOk limit cs f = some f' ∧
      Idle (Edge gcGraphEdges) stackOk one (roots ∪ added cs) f' st' groups' time' := by
  intro cs
  induction cs with
  | nil =>
    intro roots f st groups time _ h
    refine ⟨f, st, groups, time, rfl, ?_⟩
    have hroots : roots ∪ added ([] : List (Call N)) = roots := union_eq_left.mpr fun v hv => absurd hv not_mem_nil
    rw [hroots]
    exact h
  | cons c cs ih =>
    intro roots f st groups time hone h
    have hone' : .useOneComponent ∈ cs → one := fun hc => hone (mem_cons_of_mem _ hc)
    cases c with
    | addNode v =>
      obtain ⟨f₁, st₁, groups₁, time₁, heq, h₁⟩ := addNode_spec hlimit h v
      obtain ⟨f₂, st₂, groups₂, time₂, heq₂, h₂⟩ := ih hone' h₁
      refine ⟨f₂, st₂, groups₂, time₂, ?_, ?_⟩
      · rw [calls, call, heq]
        exact heq₂
      · have hroots : roots ∪ added (.addNode v :: cs) = roots ∪ {v} ∪ added cs := by
          ext x
          simp only [added, mem_union, mem_ofPred_eq, mem_cons, Call.addNode.injEq, mem_singleton_iff]
          exact or_assoc.symm
        rw [hroots]
        exact h₂
    | useOneComponent =>
      have h₁ : Idle (Edge gcGraphEdges) stackOk one roots { f with stackFull := true } st groups
          time := ⟨{ h.inv with }, h.collects, fun _ => .inl (hone mem_cons_self), nofun⟩
      obtain ⟨f₂, st₂, groups₂, time₂, heq₂, h₂⟩ := ih hone' h₁
      refine ⟨f₂, st₂, groups₂, time₂, heq₂, ?_⟩
      have hroots : roots ∪ added (.useOneComponent :: cs) = roots ∪ added cs := by
        ext x
        simp [added]
      rw [hroots]
      exact h₂

end Calls

/-! ## The results -/

section Results

variable [DecidableEq N]

lemma dumpStack_spec {c : Option N} : ∀ {top out : List N} {limit : ℕ} {f : ComponentFinder N},
    IsList f.gcNextGraphNode f.stack top → IsList f.gcNextGraphNode f.firstComponent out →
    top.Nodup → (∀ x ∈ top, x ∉ out) → top.length < limit →
    ∃ f', dumpStack c limit f = some f' ∧ f'.stack = none ∧
      IsList f'.gcNextGraphNode f'.firstComponent (top.reverse ++ out) ∧
      (∀ x, f'.gcNextGraphComponent x = if x ∈ top then c else f.gcNextGraphComponent x) ∧
      f'.gcDiscoveryTime = f.gcDiscoveryTime ∧ f'.gcLowLink = f.gcLowLink := by
  intro top
  induction top with
  | nil =>
    intro out limit f hstack hout _ _ hlimit
    obtain ⟨limit, rfl⟩ := Nat.exists_eq_succ_of_ne_zero (Nat.ne_zero_of_lt hlimit)
    have hnone : f.stack = none := hstack
    refine ⟨f, ?_, hnone, hout, fun x => (if_neg not_mem_nil).symm, rfl, rfl⟩
    rw [dumpStack, hnone]
  | cons w top ih =>
    intro out limit f hstack hout hnodup hdisjoint hlimit
    obtain ⟨limit, rfl⟩ := Nat.exists_eq_succ_of_ne_zero (Nat.ne_zero_of_lt hlimit)
    obtain ⟨htop, hrest⟩ := hstack
    obtain ⟨hw, hnodup⟩ := nodup_cons.mp hnodup
    obtain ⟨f', heq, hnone, hlist, hcomp, hdisc, hlow⟩ := @ih (w :: out) limit
      { f with
        stack := f.gcNextGraphNode w
        gcNextGraphComponent := Function.update f.gcNextGraphComponent w c
        gcNextGraphNode := Function.update f.gcNextGraphNode w f.firstComponent
        firstComponent := some w } (hrest.update hw _)
      (hout.push (hdisjoint w mem_cons_self)) hnodup (fun x hx hxo => by
        obtain rfl | hxo := mem_cons.mp hxo
        · exact hw hx
        · exact hdisjoint x (mem_cons_of_mem _ hx) hxo)
      (by rw [length_cons] at hlimit; omega)
    refine ⟨f', ?_, hnone, ?_, fun x => (hcomp x).trans (ite_update mem_cons), hdisc, hlow⟩
    · rw [dumpStack, htop]
      exact heq
    · simpa using hlist

lemma resetMarks_spec : ∀ {l : List N} {p : Option N} {limit : ℕ} {f : ComponentFinder N},
    IsList f.gcNextGraphNode p l → l.length < limit →
    ∃ f', resetMarks limit p f = some f' ∧
      (∀ x, f'.gcDiscoveryTime x = if x ∈ l then Undefined else f.gcDiscoveryTime x) ∧
      (∀ x, f'.gcLowLink x = if x ∈ l then Undefined else f.gcLowLink x) ∧
      f'.gcNextGraphNode = f.gcNextGraphNode ∧
      f'.gcNextGraphComponent = f.gcNextGraphComponent ∧ f'.stack = f.stack ∧
      f'.firstComponent = f.firstComponent ∧ f'.stackFull = f.stackFull ∧ f'.clock = f.clock := by
  intro l
  induction l with
  | nil =>
    intro p limit f hlist hlimit
    obtain ⟨limit, rfl⟩ := Nat.exists_eq_succ_of_ne_zero (Nat.ne_zero_of_lt hlimit)
    have hnone : p = none := hlist
    subst hnone
    exact ⟨f, rfl, fun x => (if_neg not_mem_nil).symm, fun x => (if_neg not_mem_nil).symm, rfl, rfl, rfl, rfl, rfl, rfl⟩
  | cons v l ih =>
    intro p limit f hlist hlimit
    obtain ⟨limit, rfl⟩ := Nat.exists_eq_succ_of_ne_zero (Nat.ne_zero_of_lt hlimit)
    obtain ⟨rfl, hlist⟩ := hlist
    obtain ⟨f', heq, hdisc, hlow, hframe⟩ := @ih _ limit { f with
        gcDiscoveryTime := Function.update f.gcDiscoveryTime v Undefined
        gcLowLink := Function.update f.gcLowLink v Undefined } hlist
      (by rw [length_cons] at hlimit; omega)
    exact ⟨f', heq, fun x => (hdisc x).trans (ite_update mem_cons), fun x => (hlow x).trans (ite_update mem_cons), hframe⟩

/-- What `getResultsList` leaves in the nodes: all groups one after another, each node of which points
to the next group. -/
structure GroupList (E : N → N → Prop) (f : ComponentFinder N) (result : Option N) (groups : List (List N)) : Prop where
  list : IsList f.gcNextGraphNode result groups.flatten
  nodup : groups.flatten.Nodup
  linked : Linked f.gcNextGraphComponent groups
  ordered : Ordered E groups

variable [Finite N] {E : N → N → Prop} {stackOk : ℕ → Bool} {limit : ℕ} {one : Prop}
  {roots : Set N}

lemma takeStack_spec (hlimit : Nat.card N < limit) (h : Idle E stackOk one roots f st groups time) :
    ∃ f' groups', f.takeStack limit = some f' ∧ f'.stack = none ∧ f'.stackFull = false ∧
      GroupList E f' f'.firstComponent groups' ∧
      (∀ x, x ∈ groups'.flatten ↔ x ∈ (searchState st groups).visited) ∧
      f'.gcDiscoveryTime = f.gcDiscoveryTime ∧ f'.gcLowLink = f.gcLowLink ∧
      (f.stackFull = false → groups' = groups) := by
  unfold takeStack
  by_cases hfull : f.stackFull = true
  · have hst : ∀ x ∈ st, x ∉ groups.flatten := h.inv.valid.disjoint
    have hnodup := h.inv.nodup_stack
    obtain ⟨f', heq, hnone, hlist, hcomp, hdisc, hlow⟩ := dumpStack_spec (c := f.firstComponent)
      h.inv.stack_list h.inv.result_list (nodup_reverse.mpr hnodup)
      (fun x hx => hst x (mem_reverse.mp hx)) (by
        rw [length_reverse]
        exact hnodup.length_le_natCard.trans_lt hlimit)
    rw [reverse_reverse] at hlist
    simp only [mem_reverse] at hcomp
    have hlinked : Linked f'.gcNextGraphComponent groups := by
      refine h.inv.linked.congr fun x hx => ?_
      rw [hcomp x, if_neg fun hs => hst x hs hx]
    have hrun : (if f.stackFull then
        (dumpStack f.firstComponent limit f).map fun f => { f with stackFull := false }
        else some f) = some { f' with stackFull := false } := by
      rw [if_pos hfull, heq]
      rfl
    have hnot : ¬f.stackFull = false := fun hf => absurd (hf.symm.trans hfull) (by decide)
    by_cases hnil : st = []
    · subst hnil
      refine ⟨_, groups, hrun, hnone, rfl, ⟨hlist, h.inv.nodup, hlinked, h.inv.ordered⟩, fun x => ?_,
        hdisc, hlow, fun hf => absurd hf hnot⟩
      exact (or_iff_right not_mem_nil).symm
    · refine ⟨_, st :: groups, hrun, hnone, rfl, ⟨hlist, ?_, ⟨hnil, fun x hx => ?_, hlinked⟩,
        pairwise_cons.mpr ⟨h.inv.no_edge hst, h.inv.ordered⟩⟩, fun x => ?_, hdisc, hlow,
        fun hf => absurd hf hnot⟩
      · rw [flatten_cons, nodup_append]
        exact ⟨hnodup, h.inv.nodup, fun x hx y hy hxy => hst x hx (hxy ▸ hy)⟩
      · rw [← h.inv.result_list.head_eq]
        exact (hcomp x).trans (if_pos hx)
      · rw [flatten_cons, mem_append, mem_visited]
  · have hnot : f.stackFull = false := (Bool.not_eq_true _).mp hfull
    obtain ⟨rfl, -⟩ := h.idle hnot
    refine ⟨f, groups, if_neg hfull, h.inv.stack_list, hnot,
      ⟨h.inv.result_list, h.inv.nodup, h.inv.linked, h.inv.ordered⟩, fun x => ?_, rfl, rfl,
      fun _ => rfl⟩
    exact (or_iff_right not_mem_nil).symm

end Results

/-! ## Correctness -/

section Correctness

variable [DecidableEq N]

/-- What the calls and then `getResultsList` promise: the groups contain every node that was added or
reached, once, and no edge leads from a later group to an earlier one.  If the native stack always
suffices, they are the components of what can be reached.  The finder can be used again. -/
def SortsComponents (gcGraphEdges : N → List N) (stackOk : ℕ → Bool) (limit : ℕ)
    (cs : List (Call N)) (f : ComponentFinder N) : Prop :=
  ∃ f₁ result f₂ groups, calls gcGraphEdges stackOk limit cs f = some f₁ ∧
    getResultsList limit f₁ = some (result, f₂) ∧ f₂.Fresh ∧
    GroupList (Edge gcGraphEdges) f₂ result groups ∧
    (∀ x, x ∈ groups.flatten ↔ f₁.gcDiscoveryTime x ≠ Undefined) ∧
    (∀ v ∈ added cs, v ∈ groups.flatten) ∧
    (∀ x ∈ groups.flatten, ∃ v ∈ added cs, ReflTransGen (Edge gcGraphEdges) v x) ∧
    ((∀ k, stackOk k = true) → .useOneComponent ∉ cs →
      (∀ v ∈ added cs, ∀ x, ReflTransGen (Edge gcGraphEdges) v x → x ∈ groups.flatten) ∧
      ∀ g ∈ groups, ∃ v, {x | x ∈ g} = component (Edge gcGraphEdges) v)

/-- **The component finder sorts components.**  The clock must not have to mark more nodes than it has
values. -/
theorem sweepGroups_correct [Finite N] (gcGraphEdges : N → List N) (stackOk : ℕ → Bool)
    (cs : List (Call N)) {f : ComponentFinder N} (hf : f.Fresh) (hpos : 0 < f.clock.toNat)
    (hcard : f.clock.toNat + Nat.card N ≤ 2 ^ 32) {limit : ℕ} (hlimit : Nat.card N < limit) :
    SortsComponents gcGraphEdges stackOk limit cs f := by
  have hstart : Idle (Edge gcGraphEdges) stackOk (.useOneComponent ∈ cs) ∅ f [] []
      f.clock.toNat := by
    refine ⟨hf.inv hpos _ hcard, ?_, fun h => ?_, fun _ => ⟨rfl, ?_⟩⟩
    · rw [searchState_nil]
      exact .nil
    · cases h.symm.trans hf.stackFull
    · rw [searchState_nil]
      exact .nil
  obtain ⟨f₁, st, groups, time, heq, h⟩ := calls_spec hlimit cs id hstart
  rw [empty_union] at h
  obtain ⟨f', groups', htake, hnone, hfull, hlist, hmem, hdisc, hlow, hgroups⟩ := takeStack_spec hlimit h
  obtain ⟨f₂, hreset, hdisc₂, hlow₂, hnext₂, hcomp₂, hstack₂, hfirst₂, hfull₂, -⟩ :=
    resetMarks_spec (f := { f' with firstComponent := none }) hlist.list
      (hlist.nodup.length_le_natCard.trans_lt hlimit)
  have hunmarked : ∀ x, x ∉ groups'.flatten → f₁.gcDiscoveryTime x = Undefined :=
    fun x hx => (h.inv.undefined_iff x).mpr fun hv => hx ((hmem x).mpr hv)
  refine ⟨f₁, f'.firstComponent, f₂, groups', heq, ?_, ⟨fun x => ?_, fun x => ?_,
    hstack₂.trans hnone, hfirst₂, hfull₂.trans hfull⟩, ⟨?_, hlist.nodup, ?_, hlist.ordered⟩,
    fun x => ?_, fun v hv => ?_, fun x hx => ?_, fun hok hone => ?_⟩
  · rw [getResultsList, htake, bind_eq_bind, bind_some, if_pos hnone]
    simp [hreset]
  · rw [hdisc₂ x]
    split
    · rfl
    next hx => exact (congrFun hdisc x).trans (hunmarked x hx)
  · rw [hlow₂ x]
    split
    · rfl
    next hx => exact (congrFun hlow x).trans (h.inv.lowLink_undefined x (hunmarked x hx))
  · rw [hnext₂]
    exact hlist.list
  · rw [hcomp₂]
    exact hlist.linked
  · simp [hmem x, h.inv.undefined_iff]
  · exact (hmem v).mpr (h.collects.roots_subset hv)
  · exact h.collects.reachable x ((hmem x).mp hx) (notMem_empty x)
  · have hnot : f₁.stackFull = false := by
      rw [← Bool.not_eq_true]
      intro hf
      obtain hu | ⟨k, hk⟩ := h.full hf
      · exact hone hu
      · cases (hok k).symm.trans hk
    rw [hgroups hnot] at hmem ⊢
    obtain ⟨rfl, hexplores⟩ := h.idle hnot
    refine ⟨fun v hv x hr => ?_, h.inv.components⟩
    rw [hmem]
    induction hr with
    | refl => exact h.collects.roots_subset hv
    | tail _ hE ih => exact hexplores.closed _ ih (notMem_empty _) _ hE

end Correctness

/-! ## The clock -/

section Clock

variable [DecidableEq N] {gcGraphEdges : N → List N} {limit : ℕ}

/-- A node without edges is a component of its own. -/
lemma addNode_isolated (hfull : f.stackFull = false) (hnone : f.stack = none)
    (hedges : gcGraphEdges v = []) (hdisc : f.gcDiscoveryTime v = Undefined)
    (hlow : f.gcLowLink v = Undefined) {f' : ComponentFinder N}
    (h : f.addNode gcGraphEdges (fun _ => true) limit v = some f') :
    f'.stackFull = false ∧ f'.stack = none ∧ f'.clock = f.clock + 1#32 ∧
      ∀ x, x ≠ v → f'.gcDiscoveryTime x = f.gcDiscoveryTime x ∧ f'.gcLowLink x = f.gcLowLink x := by
  cases limit with
  | zero =>
    simp [addNode, if_pos hdisc, if_pos hlow, processNode] at h
  | succ limit =>
    simp [addNode, processNode, checkStack, push, addEdges, popComponent, popNode, hfull, hnone,
      hedges, hdisc, hlow] at h
    subst h
    refine ⟨rfl, rfl, rfl, fun x hx => ⟨?_, ?_⟩⟩
    · simp [hx]
    · simp [hx]

/-- Nodes without edges advance the clock. -/
lemma calls_isolated : ∀ (l : List N) {f f' : ComponentFinder N}, l.Nodup →
    (∀ x ∈ l, gcGraphEdges x = []) → f.stackFull = false → f.stack = none →
    (∀ x, f.gcDiscoveryTime x = Undefined ∧ f.gcLowLink x = Undefined ∨ x ∉ l) →
    ∀ {cs : List (Call N)},
    calls gcGraphEdges (fun _ => true) limit (l.map Call.addNode ++ cs) f = some f' →
    ∃ f₁, calls gcGraphEdges (fun _ => true) limit cs f₁ = some f' ∧ f₁.stackFull = false ∧
      f₁.stack = none ∧ f₁.clock = f.clock + BitVec.ofNat 32 l.length ∧
      ∀ x ∉ l, f₁.gcDiscoveryTime x = f.gcDiscoveryTime x ∧ f₁.gcLowLink x = f.gcLowLink x := by
  intro l
  induction l with
  | nil =>
    intro f f' _ _ hfull hnone _ cs h
    exact ⟨f, h, hfull, hnone, (BitVec.add_zero _).symm, fun x _ => ⟨rfl, rfl⟩⟩
  | cons v l ih =>
    intro f f' hnodup hedges hfull hnone hmarks cs h
    obtain ⟨hv, hnodup⟩ := nodup_cons.mp hnodup
    obtain ⟨hdisc, hlow⟩ := (hmarks v).resolve_right (not_not.mpr mem_cons_self)
    rw [map_cons, cons_append, calls, call, bind_eq_bind, bind_eq_some_iff] at h
    obtain ⟨f₁, heq, h⟩ := h
    obtain ⟨hfull₁, hnone₁, hclock₁, hmarks₁⟩ := addNode_isolated hfull hnone (hedges v mem_cons_self) hdisc hlow heq
    obtain ⟨f₂, heq₂, hfull₂, hnone₂, hclock₂, hmarks₂⟩ := ih hnodup
      (fun x hx => hedges x (mem_cons_of_mem v hx)) hfull₁ hnone₁ (fun x => by
        by_cases hx : x ∈ l
        · have hxv : x ≠ v := fun h => hv (h ▸ hx)
          obtain hm | hm := hmarks x
          · rw [(hmarks₁ x hxv).1, (hmarks₁ x hxv).2]
            exact .inl hm
          · exact absurd (mem_cons_of_mem v hx) hm
        · exact .inr hx) h
    refine ⟨f₂, heq₂, hfull₂, hnone₂, ?_, fun x hx => ?_⟩
    · rw [hclock₂, hclock₁, length_cons, BitVec.ofNat_add, BitVec.add_assoc, BitVec.add_comm 1#32]
    · have hxv : x ≠ v := fun h => hx (h ▸ mem_cons_self)
      have hxl : x ∉ l := fun h => hx (mem_cons_of_mem v h)
      rw [(hmarks₂ x hxl).1, (hmarks₂ x hxl).2]
      exact hmarks₁ x hxv

/-- If the clock wraps around in a cycle of two nodes, the first one is left on the stack: its low link
becomes the mark of an unprocessed vertex. -/
lemma addNode_cycle {a b : N} (hab : a ≠ b) (hfull : f.stackFull = false) (hnone : f.stack = none)
    (hclock : f.clock = Finished) (ha : gcGraphEdges a = [b]) (hb : gcGraphEdges b = [a])
    (hdisc : f.gcDiscoveryTime a = Undefined ∧ f.gcDiscoveryTime b = Undefined)
    (hlow : f.gcLowLink a = Undefined) {f' : ComponentFinder N}
    (h : f.addNode gcGraphEdges (fun _ => true) limit a = some f') :
    f'.stackFull = false ∧ f'.stack = some a := by
  match limit with
  | 0 =>
    simp [addNode, if_pos hdisc.1, if_pos hlow, processNode] at h
  | 1 =>
    simp [addNode, processNode, checkStack, push, addEdges, addEdgeTo, hfull, ha, hdisc, hlow,
      update_of_ne hab.symm] at h
  | limit + 2 =>
    have hne : Finished ≠ Undefined := by decide
    have hwrap : Finished + 1#32 = Undefined := by decide
    have hmin : unsignedMin Finished Undefined = Undefined := by decide
    simp [addNode, processNode, checkStack, push, addEdges, addEdgeTo, lowerLink, popComponent,
      popNode, hfull, hnone, ha, hb, hdisc, hlow, hclock, hab, hab.symm, hne, hne.symm, hwrap,
      hmin] at h
    subst h
    exact ⟨rfl, rfl⟩

end Clock

/-- The graph whose last two nodes form a cycle, and which has no other edges. -/
def lastCycle (x : Fin (2 ^ 32)) : List (Fin (2 ^ 32)) :=
  if x.val = 2 ^ 32 - 2 then [⟨2 ^ 32 - 1, by norm_num⟩]
  else if x.val = 2 ^ 32 - 1 then [⟨2 ^ 32 - 2, by norm_num⟩]
  else []

/-- All nodes in turn, the last but one of which reaches the last one. -/
def lastCycleCalls : List (Call (Fin (2 ^ 32))) :=
  ((List.finRange (2 ^ 32 - 2)).map (Fin.castLE (by norm_num))).map Call.addNode ++
    [Call.addNode ⟨2 ^ 32 - 2, by norm_num⟩]

/-- A finder as it is constructed, with nodes that have not been searched before. -/
def new (N : Type) : ComponentFinder N where
  gcNextGraphNode _ := none
  gcNextGraphComponent _ := none
  gcDiscoveryTime _ := Undefined
  gcLowLink _ := Undefined
  clock := 1#32
  stack := none
  firstComponent := none
  cur := none
  stackFull := false
  stackChecks := 0

/-- The clock does not suffice for `2 ^ 32` nodes, with whatever fuel. -/
theorem not_sortsComponents_clock :
    ¬∃ limit, SortsComponents lastCycle (fun _ => true) limit lastCycleCalls (new _) := by
  rintro ⟨limit, f', result, f₂, groups, hcalls, hresults, -⟩
  have hlt : ∀ x ∈ (List.finRange (2 ^ 32 - 2)).map (Fin.castLE (by norm_num : 2 ^ 32 - 2 ≤ 2 ^ 32)),
      x.val < 2 ^ 32 - 2 := by
    simp
  obtain ⟨f₁, heq, hfull, hnone, hclock, hmarks⟩ := calls_isolated
    ((List.finRange (2 ^ 32 - 2)).map (Fin.castLE (by norm_num)))
    ((nodup_finRange _).map (Fin.castLE_injective _))
    (fun x hx => by
      have := hlt x hx
      rw [lastCycle, if_neg (by omega), if_neg (by omega)]) rfl rfl
    (fun x => .inl ⟨rfl, rfl⟩) hcalls
  rw [length_map, length_finRange] at hclock
  have hfinished : f₁.clock = Finished := hclock.trans (by decide)
  rw [calls, call, bind_eq_bind, bind_eq_some_iff] at heq
  obtain ⟨f₃, heq, hnil⟩ := heq
  obtain rfl : f₃ = f' := Option.some.inj hnil
  have hout : ∀ (k : ℕ) (hk : k < 2 ^ 32), 2 ^ 32 - 2 ≤ k →
      f₁.gcDiscoveryTime ⟨k, hk⟩ = Undefined ∧ f₁.gcLowLink ⟨k, hk⟩ = Undefined := by
    intro k hk hle
    exact hmarks ⟨k, hk⟩ fun h => absurd (hlt _ h) (not_lt.mpr hle)
  have ha := hout (2 ^ 32 - 2) (by norm_num) le_rfl
  have hb := hout (2 ^ 32 - 1) (by norm_num) (by norm_num)
  obtain ⟨hfull₃, hstack₃⟩ := addNode_cycle (f := f₁) (b := ⟨2 ^ 32 - 1, by norm_num⟩)
    (fun h => absurd (Fin.mk.inj h) (by norm_num)) hfull hnone hfinished (if_pos rfl)
    ((if_neg (by norm_num)).trans (if_pos rfl)) ⟨ha.1, hb.1⟩ ha.2 heq
  -- The stack is not empty, against the assertion.
  rw [getResultsList, takeStack, if_neg (by rw [hfull₃]; decide), bind_eq_bind,
    bind_some, if_neg (by rw [hstack₃]; exact some_ne_none _)] at hresults
  cases hresults

/-- Two nodes that form a cycle, and a third one that leads to it. -/
def threeNodes : Fin 3 → List (Fin 3)
  | 0 => [1]
  | 1 => [0]
  | 2 => [0]

theorem sweepGroups_correct_threeNodes :
    SortsComponents threeNodes (fun k => decide (k < 2)) 4 [.addNode 2, .addNode 0] (new _) :=
  sweepGroups_correct threeNodes _ _ ⟨fun _ => rfl, fun _ => rfl, rfl, rfl, rfl⟩ (by decide)
    (by rw [Nat.card_eq_fintype_card, Fintype.card_fin]; decide)
    (by rw [Nat.card_eq_fintype_card, Fintype.card_fin]; decide)

end ComponentFinder

end SpiderMonkey
