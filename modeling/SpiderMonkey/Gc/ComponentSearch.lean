import SpiderMonkey.Gc.FindSCCs

/-!
# The search of the component finder

What `processNode` does, by induction on the depth of the search.  As long as the native stack suffices
it is a visit of Tarjan's algorithm.  From the point at which it does not, every node that is reached is
pushed, and nothing is popped any more.
-/

namespace SpiderMonkey

open Relation Tarjan List Function

namespace ComponentFinder

open Set

variable {N : Type} {f f₁ f₂ : ComponentFinder N} {st st₁ st₂ : List N}
  {groups groups₁ groups₂ : List (List N)} {time time₁ time₂ : ℕ} {v w : N}

/-! ## Popping -/

section Pop

variable [DecidableEq N]

lemma ite_update {α : Type} {P Q : Prop} [Decidable P] [Decidable Q] {c : α} {g : N → α} {w x : N}
    (h : Q ↔ x = w ∨ P) : (if P then c else update g w c x) = if Q then c else g x := by
  rw [update_apply, if_congr h rfl rfl]
  by_cases hP : P <;> by_cases hx : x = w <;> simp [hP, hx]

lemma popComponent_spec {c : Option N} {rest : List N} : ∀ {top out : List N} {limit : ℕ}
    {f : ComponentFinder N}, IsList f.gcNextGraphNode f.stack (top ++ v :: rest) →
      IsList f.gcNextGraphNode f.firstComponent out → (top ++ v :: rest).Nodup →
      (∀ x ∈ top ++ v :: rest, x ∉ out) → top.length < limit →
      ∃ f', popComponent v c limit f = some f' ∧ IsList f'.gcNextGraphNode f'.stack rest ∧
        IsList f'.gcNextGraphNode f'.firstComponent (v :: top.reverse ++ out) ∧
        (∀ x, f'.gcDiscoveryTime x = if x = v ∨ x ∈ top then Finished else f.gcDiscoveryTime x) ∧
        (∀ x, f'.gcNextGraphComponent x = if x = v ∨ x ∈ top then c else f.gcNextGraphComponent x) ∧
        f'.gcLowLink = f.gcLowLink ∧ f'.clock = f.clock ∧ f'.cur = f.cur ∧
        f'.stackFull = f.stackFull := by
  intro top
  induction top with
  | nil =>
    intro out limit f hstack hout hnodup hdisjoint hlimit
    obtain ⟨limit, rfl⟩ := Nat.exists_eq_succ_of_ne_zero (Nat.ne_zero_of_lt hlimit)
    obtain ⟨htop, hrest⟩ := hstack
    have hv : v ∉ out := hdisjoint v mem_cons_self
    refine ⟨f.popNode v c, ?_, hrest.update (nodup_cons.mp hnodup).1 _, hout.push hv,
      fun x => ?_, fun x => ?_, rfl, rfl, rfl, rfl⟩
    · rw [popComponent, htop]
      exact if_pos rfl
    all_goals exact (update_apply _ _ _ _).trans (if_congr (by simp) rfl rfl)
  | cons w top ih =>
    intro out limit f hstack hout hnodup hdisjoint hlimit
    obtain ⟨limit, rfl⟩ := Nat.exists_eq_succ_of_ne_zero (Nat.ne_zero_of_lt hlimit)
    obtain ⟨htop, hrest⟩ := hstack
    obtain ⟨hw, hnodup⟩ := nodup_cons.mp hnodup
    have hwout : w ∉ out := hdisjoint w mem_cons_self
    have hwv : w ≠ v := fun h => hw (h ▸ mem_append_right _ mem_cons_self)
    obtain ⟨f', heq, hstack', hout', hdisc, hcomp, hlow, hclock, hcur, hfull⟩ :=
      @ih (w :: out) limit (f.popNode w c) (hrest.update hw _)
        (hout.push hwout) hnodup (fun x hx hxo => by
          obtain rfl | hxo := mem_cons.mp hxo
          · exact hw hx
          · exact hdisjoint x (mem_cons_of_mem _ hx) hxo)
        (by rw [length_cons] at hlimit; omega)
    have hmem (x : N) : x = v ∨ x ∈ w :: top ↔ x = w ∨ x = v ∨ x ∈ top := by rw [mem_cons, or_left_comm]
    refine ⟨f', ?_, hstack', ?_, fun x => (hdisc x).trans (ite_update (hmem x)),
      fun x => (hcomp x).trans (ite_update (hmem x)), hlow, hclock, hcur, hfull⟩
    · rw [popComponent, htop]
      exact (if_neg hwv).trans heq
    · simpa using hout'

end Pop

/-! ## The edges of a node -/

/-- What the processing of `v` does to a finder `f`. -/
structure Processed (E : N → N → Prop) (stackOk : ℕ → Bool) (v : N) (f : ComponentFinder N)
    (st : List N) (groups : List (List N)) (f' : ComponentFinder N) (st' : List N)
    (groups' : List (List N)) (time' : ℕ) : Prop where
  inv : Inv E f' st' groups' time'
  cur_eq : f'.cur = f.cur
  collects : Collects E {v} (searchState st groups).visited (searchState st' groups').visited
  full : f'.stackFull = true → f.stackFull = true ∨ ∃ k, stackOk k = false
  visit : f'.stackFull = false → f.stackFull = false ∧ (∃ ext, Visit E v f.index
    (searchState st groups) f'.index (searchState st' groups') ext (f'.gcLowLink v).toNat) ∧
    ∀ x ∈ st, f'.gcLowLink x = f.gcLowLink x

/-- The finder while the edges of `v` to `W` have been followed. -/
structure Scanning (E : N → N → Prop) (stackOk : ℕ → Bool) (v : N) (W : Set N)
    (f : ComponentFinder N) (st : List N) (groups : List (List N)) (f₁ : ComponentFinder N)
    (st₁ : List N) (groups₁ : List (List N)) (time₁ : ℕ) : Prop where
  inv : Inv E f₁ st₁ groups₁ time₁
  cur_eq : f₁.cur = some v
  collects : Collects E W (insert v (searchState st groups).visited)
    (searchState st₁ groups₁).visited
  full : f₁.stackFull = true → ∃ k, stackOk k = false
  scan : f₁.stackFull = false → (∃ ext, Scan E v W f.index (searchState st groups) f₁.index
    (searchState st₁ groups₁) ext (f₁.gcLowLink v).toNat) ∧
    ∀ x ∈ st, f₁.gcLowLink x = f.gcLowLink x

lemma toNat_unsignedMin (a b : BitVec 32) : (unsignedMin a b).toNat = Min.min a.toNat b.toNat := by
  unfold unsignedMin
  split
  next h => exact (min_eq_right h.le).symm
  next h => exact (min_eq_left (not_lt.mp h)).symm

section Scanning

variable [DecidableEq N] {E : N → N → Prop} {stackOk : ℕ → Bool} {W : Set N}

lemma Inv.setLowLink (h : Inv E f st groups time) (hv : v ∈ (searchState st groups).visited) (c : BitVec 32) :
    Inv E { f with gcLowLink := Function.update f.gcLowLink v c } st groups time :=
  { h with
    lowLink_undefined := by
      intro x hx
      have hne : x ≠ v := by
        rintro rfl
        exact (h.undefined_iff x).mp hx hv
      exact (update_of_ne hne _ _).trans (h.lowLink_undefined x hx) }

lemma lowerLink_eq (hcur : f.cur = some v) (c : BitVec 32) : f.lowerLink c = some { f with
    gcLowLink := Function.update f.gcLowLink v (unsignedMin (f.gcLowLink v) c) } := by
  rw [lowerLink, hcur]

/-- Lowering the link of `v` while its edges are followed. -/
lemma Scanning.lower (hv : v ∈ (searchState st₁ groups₁).visited)
    (hst : v ∉ (searchState st groups).visited) (hinv : Inv E f₁ st₁ groups₁ time₁)
    (hcur : f₁.cur = some v) (hcollects : Collects E W
      (insert v (searchState st groups).visited) (searchState st₁ groups₁).visited)
    (hfull : f₁.stackFull = true → ∃ k, stackOk k = false) {c : BitVec 32}
    (hscan : f₁.stackFull = false → (∃ ext, Scan E v W f.index (searchState st groups) f₁.index
      (searchState st₁ groups₁) ext (Min.min (f₁.gcLowLink v).toNat c.toNat)) ∧
      ∀ x ∈ st, f₁.gcLowLink x = f.gcLowLink x) :
    ∃ f₂, f₁.lowerLink c = some f₂ ∧ Scanning E stackOk v W f st groups f₂ st₁ groups₁ time₁ := by
  refine ⟨_, lowerLink_eq hcur c, hinv.setLowLink hv _, hcur, hcollects, hfull, fun h => ?_⟩
  obtain ⟨⟨ext, hscan⟩, hlow⟩ := hscan h
  refine ⟨⟨ext, ?_⟩, fun x hx => ?_⟩
  · rw [← toNat_unsignedMin] at hscan
    simp only [update_self]
    exact hscan
  · have hne : x ≠ v := by
      rintro rfl
      exact hst (.inl hx)
    exact (update_of_ne hne _ _).trans (hlow x hx)

lemma addEdgeTo_spec {process : N → ComponentFinder N → Option (ComponentFinder N)}
    (hst : v ∉ (searchState st groups).visited) (hE : E v w)
    (h : Scanning E stackOk v W f st groups f₁ st₁ groups₁ time₁)
    (hprocess : w ∉ (searchState st₁ groups₁).visited → ∃ f₂ st₂ groups₂ time₂,
      process w f₁ = some f₂ ∧ Processed E stackOk w f₁ st₁ groups₁ f₂ st₂ groups₂ time₂) :
    ∃ f₂ st₂ groups₂ time₂, addEdgeTo process w f₁ = some f₂ ∧
      Scanning E stackOk v (W ∪ {w}) f st groups f₂ st₂ groups₂ time₂ := by
  have hv : v ∈ (searchState st₁ groups₁).visited := h.collects.subset (mem_insert v _)
  unfold addEdgeTo
  by_cases hw : f₁.gcDiscoveryTime w = Undefined
  · -- The node is processed now.
    obtain ⟨f₂, st₂, groups₂, time₂, heq, hp⟩ := hprocess ((h.inv.undefined_iff w).mp hw)
    obtain ⟨f₃, heq', hs⟩ := Scanning.lower (f := f) (W := W ∪ {w}) (c := f₂.gcLowLink w)
      (hp.collects.subset hv) hst hp.inv (hp.cur_eq.trans h.cur_eq)
      (h.collects.append hp.collects) (fun hfull => (hp.full hfull).elim h.full id) (by
        intro hfull
        obtain ⟨hfull₁, ⟨ext₂, hvisit⟩, hlow₂⟩ := hp.visit hfull
        obtain ⟨⟨ext, hscan⟩, hlow⟩ := h.scan hfull₁
        have hmem : ∀ x, x ∈ st ∨ x = v → x ∈ st₁ := fun x hx => hscan.mem_stack.mpr (.inl hx)
        rw [hlow₂ v (hmem v (.inr rfl))]
        refine ⟨⟨ext ++ ext₂, hscan.edge_visit hE hvisit⟩, fun x hx => ?_⟩
        rw [hlow₂ x (hmem x (.inl hx)), hlow x hx])
    refine ⟨f₃, st₂, groups₂, time₂, ?_, hs⟩
    rw [if_pos hw, heq]
    exact heq'
  rw [if_neg hw]
  have hmem : w ∈ (searchState st₁ groups₁).visited := by
    by_contra hn
    exact hw ((h.inv.undefined_iff w).mpr hn)
  have hcollects := h.collects.append (.visited hmem)
  -- An edge to a node of the stack lowers the link to its discovery time.
  have hedge : w ∈ st₁ → f₁.stackFull = false → (∃ ext, Scan E v (W ∪ {w}) f.index
      (searchState st groups) f₁.index (searchState st₁ groups₁) ext
      (Min.min (f₁.gcLowLink v).toNat (f₁.gcDiscoveryTime w).toNat)) ∧
      ∀ x ∈ st, f₁.gcLowLink x = f.gcLowLink x := by
    intro hws hfull
    obtain ⟨⟨ext, hscan⟩, hlow⟩ := h.scan hfull
    exact ⟨⟨ext, hscan.edge_stack hE hws le_rfl ⟨w, hws, rfl, .refl⟩⟩, hlow⟩
  by_cases hfinished : f₁.gcDiscoveryTime w = Finished
  · -- The latest discovery time of all is that of finished nodes, and lowers nothing.
    refine ⟨f₁, st₁, groups₁, time₁, if_neg (not_not.mpr hfinished), h.inv, h.cur_eq, hcollects,
      h.full, fun hfull => ?_⟩
    obtain ⟨⟨ext, hscan⟩, hlow⟩ := h.scan hfull
    obtain hws | hwg := hmem
    · have hmin : Min.min (f₁.gcLowLink v).toNat (f₁.gcDiscoveryTime w).toNat = (f₁.gcLowLink v).toNat := by
        rw [hfinished]
        exact min_eq_left (Nat.le_of_lt_succ (f₁.gcLowLink v).isLt)
      rw [← hmin]
      exact hedge hws hfull
    · exact ⟨⟨ext, hscan.edge_done hwg⟩, hlow⟩
  · have hws : w ∈ st₁ := hmem.resolve_right fun hwg => hfinished (h.inv.finished w hwg)
    obtain ⟨f₂, heq, hs⟩ := Scanning.lower (f := f) (W := W ∪ {w}) hv hst h.inv h.cur_eq hcollects
      h.full (hedge hws)
    exact ⟨f₂, st₁, groups₁, time₁, (if_pos hfinished).trans heq, hs⟩

lemma addEdges_spec {process : N → ComponentFinder N → Option (ComponentFinder N)}
    (hst : v ∉ (searchState st groups).visited)
    (hprocess : ∀ (w : N) (f₁ : ComponentFinder N) (st₁ : List N) (groups₁ : List (List N))
      (time₁ : ℕ), Inv E f₁ st₁ groups₁ time₁ → w ∉ (searchState st₁ groups₁).visited →
      insert v (searchState st groups).visited ⊆ (searchState st₁ groups₁).visited →
      ∃ f₂ st₂ groups₂ time₂, process w f₁ = some f₂ ∧ Processed E stackOk w f₁ st₁ groups₁ f₂ st₂ groups₂ time₂) :
    ∀ (edges : List N) {W : Set N} {f₁ : ComponentFinder N} {st₁ : List N}
      {groups₁ : List (List N)} {time₁ : ℕ}, (∀ w ∈ edges, E v w) →
      Scanning E stackOk v W f st groups f₁ st₁ groups₁ time₁ →
      ∃ f₂ st₂ groups₂ time₂, addEdges process edges f₁ = some f₂ ∧
        Scanning E stackOk v (W ∪ {w | w ∈ edges}) f st groups f₂ st₂ groups₂ time₂ := by
  intro edges
  induction edges with
  | nil =>
    intro W f₁ st₁ groups₁ time₁ _ h
    refine ⟨f₁, st₁, groups₁, time₁, rfl, ?_⟩
    have hW : W ∪ {w : N | w ∈ ([] : List N)} = W := union_eq_left.mpr fun w hw => absurd hw not_mem_nil
    rw [hW]
    exact h
  | cons w edges ih =>
    intro W f₁ st₁ groups₁ time₁ hE h
    obtain ⟨f₂, st₂, groups₂, time₂, heq, hs⟩ := addEdgeTo_spec hst (hE w mem_cons_self) h
      fun hw => hprocess w f₁ st₁ groups₁ time₁ h.inv hw h.collects.subset
    obtain ⟨f₃, st₃, groups₃, time₃, heq', hs'⟩ := ih (fun w hw => hE w (mem_cons_of_mem _ hw)) hs
    refine ⟨f₃, st₃, groups₃, time₃, ?_, ?_⟩
    · rw [addEdges, heq]
      exact heq'
    · have hW : W ∪ {w' | w' ∈ w :: edges} = W ∪ {w} ∪ {w' | w' ∈ edges} := by
        ext w'
        simp only [mem_union, mem_ofPred_eq, mem_cons, mem_singleton_iff]
        exact or_assoc.symm
      rw [hW]
      exact hs'

end Scanning

/-! ## Completing a component -/

section Complete

variable {E : N → N → Prop} {g : List N}

lemma Linked.congr {comp comp' : N → Option N} : ∀ {groups : List (List N)},
    Linked comp groups → (∀ x ∈ groups.flatten, comp' x = comp x) → Linked comp' groups := by
  intro groups
  induction groups with
  | nil => exact fun _ _ => trivial
  | cons g groups ih =>
    intro h heq
    rw [flatten_cons] at heq
    refine ⟨h.1, fun x hx => ?_, ih h.2.2 fun x hx => heq x (mem_append_right _ hx)⟩
    rw [heq x (mem_append_left _ hx)]
    exact h.2.1 x hx

lemma visited_cons (st : List N) (g : List N) (groups : List (List N)) :
    (searchState st (g :: groups)).visited = (searchState (st ++ g) groups).visited := by
  ext x
  rw [mem_visited, mem_visited, flatten_cons, mem_append, mem_append]
  tauto

lemma Inv.nodup_stack (h : Inv E f st groups time) : st.Nodup :=
  h.valid.sorted.imp fun hlt heq => absurd hlt (by rw [heq]; exact lt_irrefl _)

lemma Inv.no_edge (h : Inv E f st groups time) (hg : ∀ y ∈ g, y ∉ groups.flatten) :
    ∀ g' ∈ groups, ∀ x ∈ g', ∀ y ∈ g, ¬E x y := by
  intro g' hg' x hx y hy hE
  exact hg y hy (h.valid.closed x (mem_flatten_of_mem hg' hx) y hE)

lemma complete_spec [DecidableEq N] {ext : List N} {limit low : ℕ}
    (h : Inv E f₁ st₁ groups₁ time₁) (hscan : Scan E v {w | E v w} f.index
      (searchState st groups) f₁.index (searchState st₁ groups₁) ext low)
    (hlow : low = f₁.index v) (hlimit : ext.length < limit) :
    ∃ f', popComponent v f₁.firstComponent limit f₁ = some f' ∧
      Inv E f' st ((v :: ext) :: groups₁) time₁ ∧ f'.cur = f₁.cur ∧
      f'.stackFull = f₁.stackFull ∧ f'.gcLowLink = f₁.gcLowLink ∧
      Visit E v f.index (searchState st groups) f'.index
        (searchState st ((v :: ext) :: groups₁)) [] low := by
  have hst₁ : st₁ = st ++ v :: ext := hscan.stack_eq
  have hreverse : st₁.reverse = ext.reverse ++ v :: st.reverse := by
    simp [hst₁]
  have hdisjoint : ∀ x ∈ st₁, x ∉ groups₁.flatten := h.valid.disjoint
  have hnodup : st₁.Nodup := h.nodup_stack
  have hstack := h.stack_list
  rw [hreverse] at hstack
  obtain ⟨f', heq, hstack', hresult', hdisc, hcomp, hlow', hclock, hcur, hfull⟩ :=
    popComponent_spec (c := f₁.firstComponent) hstack h.result_list
      (by rw [← hreverse]; exact nodup_reverse.mpr hnodup)
      (fun x hx => hdisjoint x (by rw [← mem_reverse, hreverse]; exact hx))
      (show ext.reverse.length < limit by rw [length_reverse]; exact hlimit)
  have hmem : ∀ x, x = v ∨ x ∈ ext.reverse ↔ x ∈ v :: ext := by
    intro x
    simp
  simp only [hmem] at hdisc hcomp
  rw [reverse_reverse] at hresult'
  -- Everything but the nodes of the component is as before.
  have hother : ∀ x ∈ st, x ∉ v :: ext := by
    intro x hx hxe
    rw [hst₁] at hnodup
    exact (nodup_append.mp hnodup).2.2 x hx x hxe rfl
  have hdone : ∀ x ∈ v :: ext, x ∉ groups₁.flatten := fun x hx =>
    hdisjoint x (by rw [hst₁]; exact mem_append_right _ hx)
  have hindex : ∀ x ∈ st, f'.index x = f₁.index x := by
    intro x hx
    unfold index
    rw [hdisc x, if_neg (hother x hx)]
  have hcomponent := hscan.component_eq hlow
  have hstate : searchState st ((v :: ext) :: groups₁) = ⟨st, (searchState st₁ groups₁).done ∪ component E v⟩ := by
    unfold searchState
    rw [hcomponent]
    congr 1
    ext x
    rw [flatten_cons]
    simp only [mem_ofPred_eq, mem_append, mem_union]
    exact or_comm
  have hvisit : Visit E v f.index (searchState st groups) f'.index
      (searchState st ((v :: ext) :: groups₁)) [] low := by
    rw [hstate]
    exact (hscan.pop hlow).congr hindex
  have hvisited : (searchState st ((v :: ext) :: groups₁)).visited = (searchState st₁ groups₁).visited := by
    rw [visited_cons, ← hst₁]
  have hundefined : ∀ x, f'.gcDiscoveryTime x = Undefined ↔ f₁.gcDiscoveryTime x = Undefined := by
    intro x
    rw [hdisc x]
    by_cases hx : x ∈ v :: ext
    · rw [if_pos hx]
      refine ⟨fun h => absurd h (by decide), fun hu => ?_⟩
      refine absurd ?_ ((h.undefined_iff x).mp hu)
      rw [mem_visited, hst₁]
      simp [hx]
    · rw [if_neg hx]
  refine ⟨f', heq, ⟨hstack', ?_, ?_, ⟨cons_ne_nil _ _, fun x hx => ?_, ?_⟩, ?_, ?_,
    hvisit.valid, ?_, ?_, ?_, hclock.trans h.clock_eq, h.time_pos, ?_, ?_⟩, hcur, hfull, hlow', hvisit⟩
  · rw [flatten_cons]
    exact hresult'
  · rw [flatten_cons, nodup_append]
    rw [hst₁] at hnodup
    exact ⟨(nodup_append.mp hnodup).2.1, h.nodup, fun x hx y hy hxy => hdone x hx (hxy ▸ hy)⟩
  · rw [hcomp x, if_pos hx, h.result_list.head_eq]
  · refine h.linked.congr fun x hx => ?_
    rw [hcomp x, if_neg fun hxe => hdone x hxe hx]
  · exact pairwise_cons.mpr ⟨h.no_edge hdone, h.ordered⟩
  · intro g hg
    obtain rfl | hg := mem_cons.mp hg
    · exact ⟨v, hcomponent.symm⟩
    · exact h.components g hg
  · intro x
    rw [hvisited, hundefined, h.undefined_iff]
  · intro x hx
    rw [hlow']
    exact h.lowLink_undefined x ((hundefined x).mp hx)
  · intro x hx
    rw [hdisc x]
    split
    · rfl
    next hxe =>
      rw [flatten_cons] at hx
      exact h.finished x ((mem_append.mp hx).resolve_left hxe)
  · intro x hx
    rw [hindex x hx]
    exact h.index_lt x (by rw [hst₁]; exact mem_append_left _ hx)
  · rw [hvisited]
    exact h.time_le

end Complete

/-! ## The whole search -/

section Process

variable [DecidableEq N] [Finite N] {gcGraphEdges : N → List N} {stackOk : ℕ → Bool} {limit : ℕ}

/-- Processing a node, if there is fuel for all the nodes that are left. -/
lemma processNode_spec (hlimit : Nat.card N < limit) : ∀ (fuel : ℕ) (v : N)
    (f : ComponentFinder N) (st : List N) (groups : List (List N)) (time : ℕ),
    Inv (Edge gcGraphEdges) f st groups time → v ∉ (searchState st groups).visited →
    remaining univ (searchState st groups).visited < fuel →
    ∃ f' st' groups' time', processNode gcGraphEdges stackOk limit fuel v f = some f' ∧
      Processed (Edge gcGraphEdges) stackOk v f st groups f' st' groups' time' := by
  intro fuel
  induction fuel with
  | zero => exact fun _ _ _ _ _ _ _ h => absurd h (Nat.not_lt_zero _)
  | succ fuel ih =>
    intro v f st groups time h hv hfuel
    have hpush := h.push hv
    have hvisited : (searchState (st ++ [v]) groups).visited = insert v (searchState st groups).visited :=
      Tarjan.State.visited_push (searchState st groups) v
    have hleft : remaining univ (insert v (searchState st groups).visited) < fuel := by
      have := remaining_insert_lt finite_univ (mem_univ v) hv
      omega
    rw [processNode]
    -- The check of the native stack.
    obtain ⟨checks, full, hcheck, hfull, hnot⟩ : ∃ checks full, (f.push v).checkStack stackOk =
          { f.push v with stackFull := full, stackChecks := checks } ∧
        (full = true → f.stackFull = true ∨ ∃ k, stackOk k = false) ∧
        (full = false → f.stackFull = false) := by
      unfold checkStack
      split
      next hf => exact ⟨f.stackChecks, true, by rw [← hf]; rfl, fun _ => .inl hf, nofun⟩
      next hf =>
        refine ⟨_, _, rfl, fun h => .inr ⟨f.stackChecks, ?_⟩, fun _ => ?_⟩
        · exact (Bool.not_eq_true' _).mp h
        · exact (Bool.not_eq_true _).mp hf
    rw [hcheck]
    cases full with
    | true =>
      refine ⟨_, st ++ [v], groups, time + 1, if_pos rfl, { hpush with }, rfl, ?_, hfull, nofun⟩
      rw [hvisited]
      exact .insert
    | false =>
    have hnot := hnot rfl
    have hindex : ∀ x ∈ st, (f.push v).index x = f.index x := by
      intro x hx
      have hne : x ≠ v := by
        rintro rfl
        exact hv (.inl hx)
      unfold index
      exact congrArg BitVec.toNat (update_of_ne hne _ _)
    have hlink : (f.push v).gcLowLink v = (f.push v).gcDiscoveryTime v := by
      simp [push]
    have hstart : Scanning (Edge gcGraphEdges) stackOk v ∅ f st groups
        { f.push v with stackFull := false, stackChecks := checks, cur := some v } (st ++ [v])
        groups (time + 1) := by
      refine ⟨{ hpush with }, rfl, ?_, nofun, fun _ => ⟨⟨[], ?_⟩, fun x hx => ?_⟩⟩
      · rw [hvisited]
        exact .nil
      · have hlt : ∀ x ∈ st, (f.push v).index x < (f.push v).index v := by
          have hsorted := hpush.valid.sorted
          exact fun x hx => (pairwise_append.mp hsorted).2.2 x hx v mem_cons_self
        have hs := Scan.start h.valid hv hindex hlt
        have hidx : (f.push v).index v = ((f.push v).gcLowLink v).toNat := by
          unfold index
          rw [hlink]
        rw [hidx] at hs
        exact hs
      · have hne : x ≠ v := by
          rintro rfl
          exact hv (.inl hx)
        exact update_of_ne hne _ _
    obtain ⟨f₂, st₂, groups₂, time₂, heq, hs⟩ := addEdges_spec hv
      (fun w f₁ st₁ groups₁ time₁ h₁ hw hsub => ih w f₁ st₁ groups₁ time₁ h₁ hw
        ((remaining_le finite_univ hsub).trans_lt hleft)) (gcGraphEdges v)
      (fun _ hw => hw) hstart
    rw [empty_union] at hs
    have hcollects : Collects (Edge gcGraphEdges) {v} (searchState st groups).visited
        (searchState st₂ groups₂).visited := hs.collects.node fun _ hw => hw
    simp only [Bool.false_eq_true, if_false]
    have hrun : ∀ r, (if f₂.stackFull = true then some { f₂ with cur := f.cur }
        else if f₂.gcLowLink v = f₂.gcDiscoveryTime v then
          popComponent v f₂.firstComponent limit { f₂ with cur := f.cur }
        else some { f₂ with cur := f.cur }) = some r →
        (do
          let f₂ ← addEdges (processNode gcGraphEdges stackOk limit fuel) (gcGraphEdges v)
            { f.push v with stackFull := false, stackChecks := checks, cur := some v }
          let f₂ := { f₂ with cur := f.cur }
          if f₂.stackFull then return f₂
          else if f₂.gcLowLink v = f₂.gcDiscoveryTime v then
            popComponent v f₂.firstComponent limit f₂
          else return f₂) = some r := by
      intro r hr
      rw [heq]
      exact hr
    by_cases hfull₂ : f₂.stackFull = true
    · exact ⟨{ f₂ with cur := f.cur }, st₂, groups₂, time₂, hrun _ (if_pos hfull₂),
        { hs.inv with }, rfl, hcollects, fun _ => .inr (hs.full hfull₂),
        fun hf => absurd (hf.symm.trans hfull₂) (by decide)⟩
    have hnot₂ : f₂.stackFull = false := (Bool.not_eq_true _).mp hfull₂
    obtain ⟨⟨ext, hscan⟩, hlow⟩ := hs.scan hnot₂
    have hinv : Inv (Edge gcGraphEdges) { f₂ with cur := f.cur } st₂ groups₂ time₂ :=
      { hs.inv with }
    have hext : ext.length < limit := by
      have hlen := hs.inv.nodup_stack.length_le_natCard
      have hst₂ : st₂ = st ++ v :: ext := hscan.stack_eq
      rw [hst₂, List.length_append, length_cons] at hlen
      omega
    by_cases hroot : f₂.gcLowLink v = f₂.gcDiscoveryTime v
    · obtain ⟨f₃, heq₃, hinv₃, hcur₃, hfull₃, hlow₃, hvisit⟩ := complete_spec hinv hscan
        (congrArg BitVec.toNat hroot) hext
      refine ⟨f₃, st, _, time₂, hrun _ ?_, hinv₃, hcur₃, ?_, ?_, fun _ => ⟨hnot, ⟨[], ?_⟩, ?_⟩⟩
      · rw [if_neg hfull₂, if_pos hroot]
        exact heq₃
      · have hst₂ : st₂ = st ++ v :: ext := hscan.stack_eq
        rw [visited_cons, ← hst₂]
        exact hcollects
      · exact fun hf => absurd (hf.symm.trans hfull₃) (by rw [hnot₂]; decide)
      · rw [hlow₃]
        exact hvisit
      · intro x hx
        rw [hlow₃]
        exact hlow x hx
    · refine ⟨{ f₂ with cur := f.cur }, st₂, groups₂, time₂, hrun _ ?_, hinv, rfl, hcollects,
        fun hf => absurd hf hfull₂, fun _ => ⟨hnot, ⟨v :: ext, ?_⟩, hlow⟩⟩
      · simp [hroot]
      · exact hscan.leave fun hl => hroot (BitVec.eq_of_toNat_eq hl)

end Process

end ComponentFinder

end SpiderMonkey
