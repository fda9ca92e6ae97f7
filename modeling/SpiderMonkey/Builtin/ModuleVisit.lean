import SpiderMonkey.Builtin.ModuleSearch

/-!
# Visits of the search

`innerModule` visits a module: its requests one after another, then the module itself, and if nothing
below it is reached, its component is popped.  The search has an outcome with enough fuel, which is a
visit that returns or one that throws.
-/

namespace SpiderMonkey

open Relation Tarjan Script List Function

section Visits

variable {M ε : Type} [DecidableEq M] {g : ModuleGraph M} {phase : Phase M ε}
  {throws : ModuleStep M → Option ε} {refusal : ModuleStatus → Option ε → ε → Prop}
  {s t t' : ModuleState M ε} {next next' : ℕ} {lost : Option M} {new : List M} {m v w : M} {W : Set M}
  {e : ε}

namespace Scanning

open Function

omit [DecidableEq M] in
lemma mem_visited (hp : phase.Lawful refusal) (h : Scanning g phase throws v W s t next) : v ∈ t.visited phase := by
  obtain ⟨ext, low, hscan, -⟩ := h.scan
  rw [← h.inv.visited_eq hp]
  exact .inl (hscan.mem_stack.mpr (.inl (.inr rfl)))

lemma set_low {ext : List M} {low : ℕ} (hinv : SearchInv g phase t next)
    (hscan : Scan g.Requires v W s.index (s.abs phase) t.index (t.abs phase) ext low)
    (heffect : Effect g phase throws s t new none) (hp : phase.Lawful refusal)
    (hvs : v ∉ s.visited phase)
    (hnew : ∀ m ∈ t.visited phase, m ∉ insert v (s.visited phase) → m ∈ new) (hidle : v ∉ t.attempts) :
    Scanning g phase throws v W s
      { t with dfsAncestorIndex := update t.dfsAncestorIndex v (some low) } next := by
  have hvisited : v ∈ t.visited phase := by
    rw [← hinv.visited_eq hp]
    exact .inl (hscan.mem_stack.mpr (.inl (.inr rfl)))
  have hself : update t.dfsAncestorIndex v (some low) v = some low := update_self _ _ _
  refine ⟨{ hinv with
      slots := fun x hx => ?_
      ancestor := fun x hx a ha => ?_
      traced := { hinv.traced with } },
    ⟨ext, low, hscan, hself⟩, ⟨new, heffect.of_ancestor hvisited hvs, hnew⟩, hidle⟩
  · obtain ⟨hidx, hanc⟩ := hinv.slots x hx
    refine ⟨hidx, ?_⟩
    by_cases hxv : x = v
    · simp [hxv]
    · simp [hxv, hanc]
  · by_cases hxv : x = v
    · rw [hxv] at ha ⊢
      cases hself.symm.trans ha
      obtain ⟨y, hy, hidx, hr⟩ := hscan.low_mem
      exact ⟨hscan.low_le_idx, y, hscan.mem_stack.mpr (.inl hy), hidx, hr⟩
    · exact hinv.ancestor x hx a ((update_of_ne hxv _ _).symm.trans ha)

lemma next_visited (hp : phase.Lawful refusal) (h : Scanning g phase throws v W s t next)
    (hvs : v ∉ s.visited phase) (hE : g.Requires v w) (hw : w ∈ t.visited phase) :
    Scanning g phase throws v (W ∪ {w}) s (t.lowered phase v w) next := by
  obtain ⟨ext, low, hscan, hanc⟩ := h.scan
  obtain ⟨new, heffect, hnew⟩ := h.effect
  unfold ModuleState.lowered
  split
  next hb =>
    have hws := (h.inv.busy_iff w).mp hb
    obtain ⟨c, hc⟩ := Option.isSome_iff_exists.mp (h.inv.slots w hw).2
    obtain ⟨hle, hback⟩ := h.inv.ancestor w hws c hc
    have hmin : minIndex (t.dfsAncestorIndex v) (t.dfsAncestorIndex w) = some (Min.min low c) := by
      rw [hanc, hc]
      rfl
    rw [hmin]
    exact set_low h.inv (hscan.edge_stack hE hws hle hback) heffect hp hvs hnew h.idle
  next hb =>
    exact ⟨h.inv, ⟨ext, low, hscan.edge_done ⟨hw, hb⟩, hanc⟩, ⟨new, heffect, hnew⟩, h.idle⟩

lemma next_returned (hp : phase.Lawful refusal) (h : Scanning g phase throws v W s t next)
    (hvs : v ∉ s.visited phase) (hE : g.Requires v w) (hr : Returned g phase throws w t t' next') :
    Scanning g phase throws v (W ∪ {w}) s (t'.lowered phase v w) next' := by
  obtain ⟨ext, low, hscan, hanc⟩ := h.scan
  obtain ⟨new, heffect, hnew⟩ := h.effect
  obtain ⟨new₂, heffect₂, hnew₂⟩ := hr.effect
  have hvt := h.mem_visited hp
  have htrans := heffect.trans heffect₂
  have hall : ∀ m ∈ t'.visited phase, m ∉ insert v (s.visited phase) → m ∈ new ++ new₂ := by
    intro m hm hn
    by_cases hmt : m ∈ t.visited phase
    · exact mem_append_left _ (hnew m hmt hn)
    · exact mem_append_right _ (hnew₂ m hm hmt)
  have hidle : v ∉ t'.attempts := by
    intro hv
    exact (heffect₂.mem_attempts v hv).elim h.idle fun hv => hv.2 hvt
  have hanc' : t'.dfsAncestorIndex v = some low := (heffect₂.frame v (.inl hvt)).2.2.trans hanc
  unfold ModuleState.lowered
  obtain ⟨low₂, hvisit⟩ | ⟨ext₂, low₂, hvisit, hlow₂⟩ := hr.visit
  · -- The component of `w` is complete.
    have hws : w ∉ t'.stack := by
      have hstack : t'.stack = t.stack ++ [] := hvisit.stack_eq
      rw [hstack, append_nil]
      exact fun hw => hvisit.notMem (.inl hw)
    rw [if_neg fun hb => hws ((hr.inv.busy_iff w).mp hb)]
    have hedge := hscan.edge_visit hE hvisit
    rw [min_eq_left (hscan.low_le_of_visit hvisit)] at hedge
    exact ⟨hr.inv, ⟨_, low, hedge, hanc'⟩, ⟨_, htrans, hall⟩, hidle⟩
  · have hws : w ∈ t'.stack := by
      have hstack : t'.stack = t.stack ++ w :: ext₂ := hvisit.stack_eq
      simp [hstack]
    rw [if_pos ((hr.inv.busy_iff w).mpr hws), hanc', hlow₂]
    exact set_low hr.inv (hscan.edge_visit hE hvisit) htrans hp hvs hall hidle

section

omit [DecidableEq M]

lemma thrown (h : Scanning g phase throws v W s t next)
    (hW : ∀ w ∈ W, g.Requires v w) (hcause : Cause g phase throws refusal v s t e none) :
    Thrown g phase throws refusal v s t e none := by
  obtain ⟨ext, low, hscan, -⟩ := h.scan
  obtain ⟨new, heffect, -⟩ := h.effect
  refine ⟨⟨_, {v}, .self hscan hW, fun m hm hran => ?_⟩, ⟨new, heffect⟩, h.inv.traced, fun m => ?_,
    h.inv.slots, .inr (hscan.mem_stack.mpr (.inl (.inr rfl))), nofun, hcause, fun hv => absurd hv h.idle⟩
  · rw [Set.mem_singleton_iff.mp hm] at hran
    exact h.idle (h.inv.traced.ran_subset hran)
  · simp [h.inv.busy_iff]

lemma thrown_visit (hp : phase.Lawful refusal) (h : Scanning g phase throws v W s t next)
    (hW : ∀ w ∈ W, g.Requires v w) (hE : g.Requires v w)
    (ht : Thrown g phase throws refusal w t t' e lost) :
    Thrown g phase throws refusal v s t' e lost := by
  obtain ⟨ext, low, hscan, -⟩ := h.scan
  obtain ⟨new, heffect, -⟩ := h.effect
  obtain ⟨ext₂, busy, habort, hbusy⟩ := ht.abort
  obtain ⟨new₂, heffect₂⟩ := ht.effect
  have hidle : v ∉ t'.attempts := by
    intro hv
    exact (heffect₂.mem_attempts v hv).elim h.idle fun hv => hv.2 (h.mem_visited hp)
  have hattempts : ∀ m, m ∉ t.attempts → m ∉ s.attempts := fun m hm hs => hm (heffect.attempts_prefix.subset hs)
  refine ⟨⟨_, _, .visit hscan hW hE habort, ?_⟩, ⟨_, heffect.trans heffect₂⟩, ht.traced, ht.busy_iff,
    ht.slots, .inr ?_, ht.lost_idle, ?_, fun hv => absurd hv hidle⟩
  · rintro m (rfl | hm)
    · exact fun hran => hidle (ht.traced.ran_subset hran)
    · exact hbusy m hm
  · rw [show t'.stack = t.stack ++ ext₂ from habort.stack_eq]
    exact mem_append_left _ (hscan.mem_stack.mpr (.inl (.inr rfl)))
  · cases ht.cause with
    | call c hc => exact .call c hc
    | resolve m i hm => exact .resolve m i hm
    | append m hm hr hstack => exact .append m hm (.head hE hr) hstack
    | run m hm hr hattempt hnew hran =>
      exact .run m hm (.head hE hr) hattempt (hattempts m hnew) hran
    | refuse m hr hvisited hpending hrefuse =>
      obtain ⟨hst, -, -⟩ := heffect.frame m (.inr hvisited)
      rw [hst] at hpending hrefuse
      rw [heffect.errors_eq] at hrefuse
      exact .refuse m (.head hE hr) (fun hs => hvisited (heffect.visited_subset hs)) hpending hrefuse

lemma dependsOn_done (h : Scanning g phase throws v {w | g.Requires v w} s t next')
    (hreach : ∀ y ∈ s.stack, g.Reaches y v) {d : M} (hd : g.DependsOn v d) :
    d ∈ (t.abs phase).done := by
  obtain ⟨ext, low, hscan, -⟩ := h.scan
  obtain ⟨w, hE, hn, hr⟩ := hd
  refine h.inv.valid.done_of_reachable ?_ hr
  obtain hw | hw := hscan.explores.roots_subset hE
  · -- What is on the stack leads back to `v`.
    obtain (hw | rfl) | hw := hscan.mem_stack.mp hw
    · exact absurd (hreach w hw) hn
    · exact absurd .refl hn
    · obtain ⟨y, hy | rfl, hr'⟩ := hscan.returns w hw
      · exact absurd (hr'.trans (hreach y hy)) hn
      · exact absurd hr' hn
  · exact hw

lemma explores (hp : phase.Lawful refusal) (hinv : SearchInv g phase s next)
    (h : Scanning g phase throws v {w | g.Requires v w} s t next') :
    Explores g.Requires {v} (s.visited phase) (t.visited phase) := by
  obtain ⟨ext, low, hscan, -⟩ := h.scan
  rw [← hinv.visited_eq hp, ← h.inv.visited_eq hp]
  exact .node hscan.explores

lemma attempt_nodup (h : Scanning g phase throws v W s t next) : (t.attempts ++ [v]).Nodup := by
  refine nodup_append.mpr ⟨h.inv.traced.attempts_nodup, nodup_singleton v, ?_⟩
  intro x hx y hy
  rw [mem_singleton.mp hy]
  exact ne_of_mem_of_not_mem hx h.idle

lemma thrown_run (hp : phase.Lawful refusal) (hinv : SearchInv g phase s next)
    (hvs : v ∉ s.visited phase) (h : Scanning g phase throws v {w | g.Requires v w} s t next')
    (he : throws (.run v) = some e) : Thrown g phase throws refusal v s (t.attempt v) e none := by
  obtain ⟨ext, low, hscan, -⟩ := h.scan
  obtain ⟨new, heffect, -⟩ := h.effect
  have hvt := h.mem_visited hp
  have hvstack : v ∈ t.stack := hscan.mem_stack.mpr (.inl (.inr rfl))
  have hexplores := h.explores hp hinv
  refine ⟨⟨_, {v}, .self hscan fun _ hw => hw, fun m hm hran => ?_⟩, ⟨new, { heffect with
      attempts_prefix := heffect.attempts_prefix.trans (prefix_append _ _)
      mem_attempts := fun m hm => ?_ }⟩,
    ⟨h.attempt_nodup, h.inv.traced.ran_nodup, List.Subset.trans h.inv.traced.ran_subset (subset_append_left _ _),
      fun m hm => ?_⟩,
    fun m => ?_, h.inv.slots, .inr hvstack, nofun,
    .run v he .refl (mem_append_right _ mem_cons_self)
      (fun hs => h.idle (heffect.attempts_prefix.subset hs))
      (fun hran => h.idle (h.inv.traced.ran_subset hran)), fun _ _ => hexplores⟩
  · rw [Set.mem_singleton_iff.mp hm] at hran
    exact h.idle (h.inv.traced.ran_subset hran)
  · obtain hm | hm := mem_append.mp hm
    · exact heffect.mem_attempts m hm
    · rw [mem_singleton.mp hm]
      exact .inr ⟨hvt, hvs⟩
  · obtain hm | hm := mem_append.mp hm
    · exact h.inv.traced.not_pending m hm
    · rw [mem_singleton.mp hm]
      exact fun hpending => hp.pending_ne_busy (hpending.symm.trans ((h.inv.busy_iff v).mpr hvstack))
  · exact (h.inv.busy_iff m).trans (or_iff_left nofun).symm

lemma executed (hp : phase.Lawful refusal) (hvs : v ∉ s.visited phase) (hreach : ∀ y ∈ s.stack, g.Reaches y v)
    (h : Scanning g phase throws v {w | g.Requires v w} s t next') :
    Executed g phase throws v s ((t.attempt v).succeed v) next' := by
  obtain ⟨ext, low, hscan, hanc⟩ := h.scan
  obtain ⟨new, heffect, hnew⟩ := h.effect
  have hvt := h.mem_visited hp
  have hvstack : v ∈ t.stack := hscan.mem_stack.mpr (.inl (.inr rfl))
  have hvbusy : t.status v = phase.busy := (h.inv.busy_iff v).mpr hvstack
  refine ⟨{ h.inv with traced := ⟨h.attempt_nodup, ?_, ?_, fun m hm => ?_⟩ },
    ⟨ext, low, hscan, hanc⟩, new ++ [v], ⟨?_, fun m hm => ?_,
      heffect.attempts_prefix.trans (prefix_append _ _), fun m hm => ?_,
      fun l₁ m l₂ heq d hd => ?_, heffect.visited_subset, fun m hm hn => ?_, heffect.was_pending,
      heffect.frame, heffect.errors_eq, heffect.quiet⟩, fun m hm hn => ?_⟩
  · refine nodup_append.mpr ⟨h.inv.traced.ran_nodup, nodup_singleton v, ?_⟩
    intro x hx y hy
    rw [mem_singleton.mp hy]
    exact ne_of_mem_of_not_mem (h.inv.traced.ran_subset hx) h.idle
  · exact append_subset.mpr ⟨List.Subset.trans h.inv.traced.ran_subset (subset_append_left _ _),
      subset_append_right _ _⟩
  · obtain hm | hm := mem_append.mp hm
    · exact h.inv.traced.not_pending m hm
    · rw [mem_singleton.mp hm]
      exact fun hpending => hp.pending_ne_busy (hpending.symm.trans hvbusy)
  · show t.ran ++ [v] = s.ran ++ (new ++ [v])
    simp [heffect.ran_eq]
  · obtain hm | hm := mem_append.mp hm
    · exact heffect.mem_new m hm
    · rw [mem_singleton.mp hm]
      exact ⟨hvt, hvs⟩
  · obtain hm | hm := mem_append.mp hm
    · exact heffect.mem_attempts m hm
    · rw [mem_singleton.mp hm]
      exact .inr ⟨hvt, hvs⟩
  · cases l₂ using List.reverseRecOn with
    | nil =>
      obtain ⟨rfl, hm⟩ := append_inj' heq rfl
      obtain rfl := singleton_injective hm
      have hdone := h.dependsOn_done hreach hd
      by_cases hs : d ∈ (s.abs phase).done
      · exact .inr (.inr hs)
      · exact .inl (heffect.done_new d hdone hs).1
    | append_singleton l₂ x _ =>
      rw [← cons_append, ← append_assoc] at heq
      exact heffect.order l₁ m l₂ (append_inj' heq rfl).1 d hd
  · obtain ⟨hmem, hst⟩ := heffect.done_new m hm hn
    exact ⟨mem_append_left _ hmem, hst⟩
  · by_cases hmv : m = v
    · simp [hmv]
    · exact mem_append_left _ (hnew m hm fun hi => hi.elim hmv hn)

/-- What is on the stack leads to what `v` requests. -/
lemma reaches (h : Scanning g phase throws v W s t next) (hW : ∀ w ∈ W, g.Requires v w)
    (hreach : ∀ y ∈ s.stack, g.Reaches y v) (hE : g.Requires v w) {y : M} (hy : y ∈ t.stack) :
    g.Reaches y w := by
  obtain ⟨ext, low, hscan, -⟩ := h.scan
  obtain (hy | rfl) | hy := hscan.mem_stack.mp hy
  · exact .tail (hreach y hy) hE
  · exact .single hE
  · obtain ⟨z, hz | rfl, hr⟩ := hscan.returns y hy
    · exact .tail (hr.trans (hreach z hz)) hE
    · exact .tail hr hE

end

end Scanning

namespace Executed

omit [DecidableEq M] in
lemma leave (h : Executed g phase throws v s t next)
    (hroot : t.dfsAncestorIndex v ≠ t.dfsIndex v) (hp : phase.Lawful refusal) :
    Returned g phase throws v s t next := by
  obtain ⟨ext, low, hscan, hanc⟩ := h.scan
  have hvisited : v ∈ t.visited phase := by
    rw [← h.inv.visited_eq hp]
    exact .inl (hscan.mem_stack.mpr (.inl (.inr rfl)))
  obtain ⟨i, hi⟩ := Option.isSome_iff_exists.mp (h.inv.slots v hvisited).1
  refine ⟨h.inv, .inr ⟨ext, low, hscan.leave fun hlow => hroot ?_, hanc⟩, h.effect⟩
  rw [hanc, hlow, hi]
  exact congrArg some (congrArg (Option.getD · 0) hi)

end Executed

/-! ## Components -/

section Popping

variable {base group : List M}

namespace ModuleState

lemma status_popped_of_mem (hm : m ∈ group) : (t.popped phase base group).status m = phase.complete := if_pos hm

lemma status_popped_of_notMem (hm : m ∉ group) : (t.popped phase base group).status m = t.status m := if_neg hm

lemma popped_singleton (base : List M) (v : M) (t : ModuleState M ε) :
    { t with stack := base, status := update t.status v phase.complete } = t.popped phase base [v] := by
  refine congrArg (fun status => { t with stack := base, status := status }) (funext fun m => ?_)
  by_cases hm : m = v
  · simp [hm]
  · simp [hm]

lemma popped_concat (base group l : List M) (x : M) (t : ModuleState M ε) : ModuleState.popped phase base group
      { t with stack := l, status := update t.status x phase.complete } =
      t.popped phase base (group ++ [x]) := by
  refine congrArg (fun status => { t with stack := base, status := status }) (funext fun m => ?_)
  show (if m ∈ group then phase.complete else update t.status x phase.complete m) = _
  simp only [mem_append, mem_singleton]
  by_cases hg : m ∈ group
  · simp [hg]
  · rw [if_neg hg]
    by_cases hm : m = x
    · simp [hm]
    · simp [hm, hg]

lemma visited_popped (hp : phase.Lawful refusal) (base : List M) (hbusy : ∀ m ∈ group, t.status m = phase.busy) :
    (t.popped phase base group).visited phase = t.visited phase := by
  ext m
  show phase.visited ((t.popped phase base group).status m) = true ↔ phase.visited (t.status m) = true
  by_cases hm : m ∈ group
  · rw [status_popped_of_mem hm, hbusy m hm]
    exact iff_of_true hp.visited_complete hp.visited_busy
  · rw [status_popped_of_notMem hm]

lemma abs_popped (hp : phase.Lawful refusal) : (t.popped phase base group).abs phase =
    ⟨base, (t.abs phase).done ∪ {m | m ∈ group}⟩ := by
  refine congrArg (Tarjan.State.mk base) (Set.ext fun m => ?_)
  show phase.visited ((t.popped phase base group).status m) = true ∧ (t.popped phase base group).status m ≠ phase.busy ↔
    (phase.visited (t.status m) = true ∧ t.status m ≠ phase.busy) ∨ m ∈ group
  by_cases hm : m ∈ group
  · rw [status_popped_of_mem hm]
    exact iff_of_true ⟨hp.visited_complete, hp.busy_ne_complete.symm⟩ (.inr hm)
  · rw [status_popped_of_notMem hm, or_iff_left hm]

end ModuleState

/-- What is popped are the last modules of the stack, which are busy. -/
lemma SearchInv.popped (hp : phase.Lawful refusal) (h : SearchInv g phase t next) (hstack : t.stack = base ++ group)
    (hvalid : Valid g.Requires t.index ((t.popped phase base group).abs phase)) :
    SearchInv g phase (t.popped phase base group) next := by
  have hsorted : (base ++ group).Pairwise fun x y => t.index x < t.index y := hstack ▸ h.valid.sorted
  obtain ⟨-, -, hlt⟩ := pairwise_append.mp hsorted
  have hbelow : ∀ x ∈ base, x ∈ t.stack := fun x hx => hstack ▸ mem_append_left _ hx
  have hbusy : ∀ x ∈ group, t.status x = phase.busy := fun x hx => (h.busy_iff x).mpr (hstack ▸ mem_append_right _ hx)
  refine ⟨fun x => ?_, hvalid, fun x hx => ?_, fun x hx => h.index_lt x (hbelow x hx),
    fun x hx a ha => ?_, fun x => ?_, fun x hx => ?_, { h.traced with not_pending := fun x hx => ?_ }⟩
  · by_cases hx : x ∈ group
    · rw [ModuleState.status_popped_of_mem hx]
      exact iff_of_false hp.busy_ne_complete.symm fun hs => lt_irrefl _ (hlt x hs x hx)
    · rw [ModuleState.status_popped_of_notMem hx, h.busy_iff, hstack, mem_append, or_iff_left hx]
      exact Iff.rfl
  · rw [ModuleState.visited_popped hp base hbusy] at hx
    exact h.slots x hx
  · obtain ⟨hle, y, hy, hidx, hr⟩ := h.ancestor x (hbelow x hx) a ha
    refine ⟨hle, y, ?_, hidx, hr⟩
    rw [hstack] at hy
    -- The numbers of the group are larger.
    refine (mem_append.mp hy).resolve_right fun hye => ?_
    exact absurd (hidx ▸ hle) (not_le.mpr (hlt x hx y hye))
  · by_cases hx : x ∈ group
    · rw [ModuleState.status_popped_of_mem hx]
      exact hp.minimum_le.trans (hp.pending_lt_busy.trans hp.busy_lt_complete).le
    · rw [ModuleState.status_popped_of_notMem hx]
      exact h.minimum x
  · by_cases hxe : x ∈ group
    · exact absurd ((ModuleState.status_popped_of_mem hxe).symm.trans hx) hp.complete_ne_error
    · exact h.errors x ((ModuleState.status_popped_of_notMem hxe).symm.trans hx)
  · by_cases hxe : x ∈ group
    · rw [ModuleState.status_popped_of_mem hxe]
      exact fun heq => absurd (hp.pending_lt_busy.trans hp.busy_lt_complete) (heq ▸ lt_irrefl _)
    · rw [ModuleState.status_popped_of_notMem hxe]
      exact h.traced.not_pending x hx

lemma Effect.popped (hp : phase.Lawful refusal) (h : Effect g phase throws s t new none)
    (hbusy : ∀ m ∈ group, t.status m = phase.busy) (hfresh : ∀ m ∈ group, m ∉ s.visited phase)
    (hnew : ∀ m ∈ group, m ∈ new) : Effect g phase throws s (t.popped phase base group) new none := by
  have hvisited := ModuleState.visited_popped hp base hbusy
  refine ⟨h.ran_eq, fun m hm => ?_, h.attempts_prefix, fun m hm => ?_, h.order, ?_, fun m hm hn => ?_,
    fun m hn hm => ?_, fun m hm => ?_, h.errors_eq, fun m hm hn => ?_⟩
  · rw [hvisited]
    exact h.mem_new m hm
  · rw [hvisited]
    exact h.mem_attempts m hm
  · rw [hvisited]
    exact h.visited_subset
  · rw [ModuleState.abs_popped hp] at hm
    by_cases hg : m ∈ group
    · exact ⟨hnew m hg, ModuleState.status_popped_of_mem hg⟩
    · obtain ⟨hmem, hst⟩ := h.done_new m (hm.resolve_right hg) hn
      exact ⟨hmem, (ModuleState.status_popped_of_notMem hg).trans hst⟩
  · rw [hvisited] at hm
    exact h.was_pending m hn hm
  · rw [hvisited] at hm
    have hg : m ∉ group := by
      intro hg
      refine hm.elim (hfresh m hg) fun hm => hm ?_
      show phase.visited (t.status m) = true
      rw [hbusy m hg]
      exact hp.visited_busy
    obtain ⟨hst, hslots⟩ := h.frame m hm
    exact ⟨(ModuleState.status_popped_of_notMem hg).trans hst, hslots⟩
  · rw [hvisited] at hm
    exact h.quiet m hm hn

end Popping

/-- A module that leads back no further completes its component. -/
lemma Executed.pop (hp : phase.Lawful refusal) (hinv : SearchInv g phase s next')
    (h : Executed g phase throws v s t next) (hroot : t.dfsAncestorIndex v = t.dfsIndex v) :
    ∃ ext, t.stack = s.stack ++ v :: ext ∧ Returned g phase throws v s (t.popped phase s.stack (v :: ext)) next := by
  obtain ⟨ext, low, hscan, hanc⟩ := h.scan
  obtain ⟨new, heffect, hnew⟩ := h.effect
  have hstack : t.stack = s.stack ++ v :: ext := hscan.stack_eq
  have hlow : low = t.index v := by
    show low = (t.dfsIndex v).getD 0
    rw [← hroot, hanc]
    rfl
  have hvisit := hscan.pop hlow
  have habs : (t.popped phase s.stack (v :: ext)).abs phase =
      ⟨(s.abs phase).stack, (t.abs phase).done ∪ component g.Requires v⟩ := by
    rw [hscan.component_eq hlow]
    exact ModuleState.abs_popped hp
  rw [← habs] at hvisit
  have hbusy : ∀ x ∈ v :: ext, t.status x = phase.busy :=
    fun x hx => (h.inv.busy_iff x).mpr (hstack ▸ mem_append_right _ hx)
  have hvisited := ModuleState.visited_popped hp s.stack hbusy
  have hfresh : ∀ x ∈ v :: ext, x ∉ s.visited phase := by
    intro x hx
    rw [← hinv.visited_eq hp]
    obtain rfl | hx := mem_cons.mp hx
    · exact hscan.notMem
    · exact fun hs => hscan.notMem_of_mem_ext hx (.inr hs)
  have hfound : ∀ x ∈ v :: ext, x ∈ t.visited phase := by
    intro x hx
    show phase.visited (t.status x) = true
    rw [hbusy x hx]
    exact hp.visited_busy
  refine ⟨ext, hstack, h.inv.popped hp hstack hvisit.valid, .inl ⟨low, hvisit⟩, new,
    heffect.popped hp hbusy hfresh fun x hx => hnew x (hfound x hx) (hfresh x hx), fun x hx hn => ?_⟩
  rw [hvisited] at hx
  exact hnew x hx hn

/-! ## The loops -/

lemma update_eq_ite {B : Type} (f : M → B) (b : B) (m : M) :
    update f m b = fun x => if x ∈ [m] then b else f x := by
  funext x
  simp [update_apply]

lemma ite_mem_cons {B : Type} (f : M → B) (b : B) (m : M) (l : List M) :
    (fun x => if x ∈ l then b else if x ∈ [m] then b else f x) = fun x => if x ∈ m :: l then b else f x := by
  funext x
  by_cases hl : x ∈ l
  · simp [hl]
  · simp [hl]

lemma ModuleSetStatus_runs {newStatus : ModuleStatus} {Q : Unit → ModuleState M ε → Prop}
    {R : ε → ModuleState M ε → Prop} (hlt : (s.status m).toNat < newStatus.toNat)
    (h : Q () { s with status := update s.status m newStatus }) :
    Runs (ModuleSetStatus m newStatus) s Q R :=
  .bind <| .get <| .bind <| .assert (.inr hlt) <| .modify h

omit [DecidableEq M] in
lemma step_runs {st : ModuleStep M} {Q : Unit → ModuleState M ε → Prop}
    {R : ε → ModuleState M ε → Prop} (hnone : throws st = none → Q () s)
    (hsome : ∀ e, throws st = some e → R e s) : Runs (step throws st) s Q R := by
  unfold step
  cases h : throws st with
  | none => exact .pure (hnone h)
  | some e => exact .throw (hsome e h)

lemma lowerAncestorIndex_runs {Q : Unit → ModuleState M ε → Prop} {R : ε → ModuleState M ε → Prop}
    (h : Q () (s.lowered phase v w)) : Runs (lowerAncestorIndex phase v w) s Q R := by
  unfold ModuleState.lowered at h
  refine .bind <| .get <| .ite (fun hb => ?_) fun hb => ?_
  · rw [if_pos hb] at h
    exact .modify h
  · rw [if_neg hb] at h
    exact .pure h

lemma popModules_runs (hp : phase.Lawful refusal) {base : List M} {Q : Unit → ModuleState M ε → Prop}
    {R : ε → ModuleState M ε → Prop} (ext : List M) : ∀ {limit : ℕ} {t : ModuleState M ε},
    t.stack = base ++ v :: ext → (v :: ext).Nodup → (∀ x ∈ v :: ext, t.status x = phase.busy) →
    ext.length < limit → Q () (t.popped phase base (v :: ext)) →
    Runs (popModules phase v limit) t Q R := by
  induction ext using List.reverseRecOn with
  | nil =>
    intro limit t hstack _ hbusy hlimit h
    obtain ⟨limit, rfl⟩ := Nat.exists_eq_succ_of_ne_zero (Nat.ne_zero_of_lt hlimit)
    have hlast : t.stack.getLast? = some v := by simp [hstack]
    have hdrop : t.stack.dropLast = base := by simp [hstack]
    refine .bind <| .get ?_
    simp only [hlast]
    refine .bind <| .modify <| .bind <| ModuleSetStatus_runs ?_ <| .ite (fun h => absurd rfl h)
      fun _ => .pure ?_
    · show (t.status v).toNat < _
      rw [hbusy v mem_cons_self]
      exact hp.busy_lt_complete
    · rw [← ModuleState.popped_singleton, ← hdrop] at h
      exact h
  | append_singleton ext x ih =>
    intro limit t hstack hnodup hbusy hlimit h
    obtain ⟨limit, rfl⟩ := Nat.exists_eq_succ_of_ne_zero (Nat.ne_zero_of_lt hlimit)
    have hstack' : t.stack = (base ++ v :: ext) ++ [x] := by
      simp [hstack]
    have hlast : t.stack.getLast? = some x := by rw [hstack', getLast?_concat]
    have hdrop : t.stack.dropLast = base ++ v :: ext := by rw [hstack', dropLast_concat]
    have hx : x ∈ v :: (ext ++ [x]) := mem_cons_of_mem _ (mem_append_right _ mem_cons_self)
    rw [← cons_append] at hnodup h
    obtain ⟨hnodup', -, hne⟩ := nodup_append.mp hnodup
    have hne' : ∀ y ∈ v :: ext, y ≠ x := fun y hy => hne y hy x mem_cons_self
    refine .bind <| .get ?_
    simp only [hlast]
    refine .bind <| .modify <| .bind <| ModuleSetStatus_runs ?_ <|
      .ite (fun _ => ih hdrop hnodup' (fun y hy => ?_) ?_ ?_) fun hxv => ?_
    · show (t.status x).toNat < _
      rw [hbusy x hx]
      exact hp.busy_lt_complete
    · exact (update_of_ne (hne' y hy) _ _).trans
        (hbusy y (cons_append ▸ mem_append_left [x] hy))
    · rw [List.length_append, length_singleton] at hlimit
      omega
    · exact (ModuleState.popped_concat base (v :: ext) t.stack.dropLast x t).symm ▸ h
    · exact absurd (not_not.mp hxv).symm (hne' v mem_cons_self)

lemma visitRequests_runs (hp : phase.Lawful refusal) {inner : M → ℕ → Script (ModuleState M ε) ε ℕ}
    (hvs : v ∉ s.visited phase) (hreach : ∀ y ∈ s.stack, g.Reaches y v)
    (hinner : ∀ w next t, SearchInv g phase t next → (∀ y ∈ t.stack, g.Reaches y w) →
      insert v (s.visited phase) ⊆ t.visited phase → Runs (inner w next) t
        (fun next' t' => w ∈ t.visited phase ∧ t' = t ∧ next' = next ∨ Returned g phase throws w t t' next')
        fun e t' => ∃ lost, Thrown g phase throws refusal w t t' e lost) :
    ∀ (rest : List JSString) (i next : ℕ) (W : Set M) (t : ModuleState M ε),
      rest ⊆ g.requestedModules v → (∀ w ∈ W, g.Requires v w) →
      Scanning g phase throws v W s t next →
      Runs (visitRequests g throws phase inner v i rest next) t
        (fun next' t' => Scanning g phase throws v
          (W ∪ {w | ∃ r ∈ rest, g.HostResolveImportedModule v r = w}) s t' next')
        fun e t' => ∃ lost, Thrown g phase throws refusal v s t' e lost := by
  intro rest
  induction rest with
  | nil =>
    intro i next W t _ _ h
    refine .pure ?_
    simpa using h
  | cons r rest ih =>
    intro i next W t hrest hW h
    set w := g.HostResolveImportedModule v r with hw
    have hE : g.Requires v w := ⟨r, hrest mem_cons_self, rfl⟩
    have hroots : W ∪ {w | ∃ r' ∈ r :: rest, g.HostResolveImportedModule v r' = w} =
        W ∪ {w} ∪ {w | ∃ r' ∈ rest, g.HostResolveImportedModule v r' = w} := by
      ext x
      simp only [Set.mem_union, Set.mem_ofPred_eq, exists_mem_cons_iff, Set.mem_singleton_iff,
        or_assoc, eq_comm (a := x), hw]
    have hW' : ∀ x ∈ W ∪ {w}, g.Requires v x := by
      rintro x (hx | rfl)
      · exact hW x hx
      · exact hE
    obtain ⟨new, heffect, -⟩ := h.effect
    have hsub : insert v (s.visited phase) ⊆ t.visited phase :=
      Set.insert_subset (h.mem_visited hp) heffect.visited_subset
    rw [hroots, visitRequests]
    refine .bind <| .bind <| step_runs (fun _ => .bind <| .get <| .ite (fun hlt => ?_) fun _ => .pure ?_)
      fun e he => ⟨none, h.thrown hW (.resolve v i he)⟩
    · exact absurd (h.inv.minimum w) (not_le.mpr hlt)
    refine .bind <| step_runs (fun _ => .bind ?_) fun e he => ⟨none, h.thrown hW (.call _ he)⟩
    refine (hinner w next t h.inv (fun y hy => h.reaches hW hreach hE hy) hsub).imp
      (fun next' t' hr => ?_) fun e t' ⟨lost, ht⟩ => ⟨lost, h.thrown_visit hp hW hE ht⟩
    have hnext : Scanning g phase throws v (W ∪ {w}) s (t'.lowered phase v w) next' := by
      obtain ⟨hwt, rfl, rfl⟩ | hr := hr
      · exact h.next_visited hp hvs hE hwt
      · exact h.next_returned hp hvs hE hr
    have hinv' : SearchInv g phase t' next' ∧ w ∈ t'.visited phase := by
      obtain ⟨hwt, rfl, rfl⟩ | hr := hr
      · exact ⟨h.inv, hwt⟩
      · refine ⟨hr.inv, ?_⟩
        rw [← hr.inv.visited_eq hp]
        obtain ⟨low, hvisit⟩ | ⟨ext, low, hvisit, -⟩ := hr.visit
        · exact hvisit.explores.roots_subset rfl
        · exact hvisit.explores.roots_subset rfl
    obtain ⟨hinv', hw'⟩ := hinv'
    refine .bind <| .get <| .bind <| .assert (hp.passed_of_visited _ hw') <| .bind <|
      .assert (hinv'.busy_iff w) <| .bind <| .assert (hinv'.slots w hw').1 <| .bind <|
      .assert (hinv'.slots w hw').2 <| .bind <| lowerAncestorIndex_runs ?_
    exact ih (i + 1) next' (W ∪ {w}) _ (fun x hx => hrest (mem_cons_of_mem r hx)) hW' hnext

/-- After the requests of `v` something is run for it, and it may be popped. -/
lemma Scanning.finish_runs (hp : phase.Lawful refusal) (hinv : SearchInv g phase s next)
    (hvs : v ∉ s.visited phase) (hreach : ∀ y ∈ s.stack, g.Reaches y v)
    (h : Scanning g phase throws v {w | g.Requires v w} s t next') :
    Runs (do
        runModule throws v
        let s ← get
        assert (s.stack.count v = 1)
        assert (minIndex (s.dfsAncestorIndex v) (s.dfsIndex v) = s.dfsAncestorIndex v)
        if s.dfsAncestorIndex v = s.dfsIndex v then do
          popModules phase v s.stack.length
          return next'
        else return next') t
      (fun next' t' => Returned g phase throws v s t' next')
      fun e t' => ∃ lost, Thrown g phase throws refusal v s t' e lost := by
  refine .bind <| .bind <| .modify <| .bind <| step_runs (fun _ => .modify <| .bind <| .get ?_)
    fun e he => ⟨none, h.thrown_run hp hinv hvs he⟩
  have hx : Executed g phase throws v s ((t.attempt v).succeed v) next' := h.executed hp hvs hreach
  obtain ⟨ext, low, hscan, hanc⟩ := hx.scan
  have hv : v ∈ t.stack := hscan.mem_stack.mpr (.inl (.inr rfl))
  have hnodup : t.stack.Nodup :=
    (show t.stack.Pairwise _ from hx.inv.valid.sorted).imp fun hlt heq => absurd (heq ▸ hlt) (lt_irrefl _)
  obtain ⟨i, hi⟩ := Option.isSome_iff_exists.mp (hx.inv.slots v (by
    rw [← hx.inv.visited_eq hp]
    exact .inl hv)).1
  have hle : low ≤ i := by
    have hidx : t.index v = i := congrArg (Option.getD · 0) hi
    exact hidx ▸ hscan.low_le_idx
  have hmin : minIndex (t.dfsAncestorIndex v) (t.dfsIndex v) = t.dfsAncestorIndex v := by
    rw [show t.dfsAncestorIndex v = some low from hanc, show t.dfsIndex v = some i from hi]
    exact congrArg some (min_eq_left hle)
  refine .bind <| .assert (count_eq_one_of_mem hnodup hv) <| .bind <| .assert hmin <|
    .ite (fun hroot => .bind ?_) fun hroot => .pure (hx.leave hroot hp)
  · obtain ⟨ext', hstack, hr⟩ := hx.pop hp hinv hroot
    have hsublist : (v :: ext').Sublist t.stack := by
      rw [show t.stack = s.stack ++ v :: ext' from hstack]
      exact sublist_append_right _ _
    refine popModules_runs hp ext' hstack (hnodup.sublist hsublist) (fun x hx' => ?_) ?_ (.pure hr)
    · exact (hx.inv.busy_iff x).mpr (hsublist.subset hx')
    · exact hsublist.length_le

omit [DecidableEq M] in
lemma Cause.append_of_some (h : Cause g phase throws refusal v s t e (some m)) :
    throws (.append m) = some e ∧ g.Reaches v m ∧ m ∉ t.stack := by
  cases h with
  | append _ he hreach hstack => exact ⟨he, hreach, hstack⟩

omit [DecidableEq M] in
lemma SearchInv.thrown (h : SearchInv g phase s next)
    (hcause : Cause g phase throws refusal v s s e none) : Thrown g phase throws refusal v s s e none :=
  ⟨⟨[], ∅, .before h.valid v fun _ _ => rfl, fun _ hm => hm.elim⟩, ⟨[], .refl s⟩, h.traced,
    fun m => (h.busy_iff m).trans (or_iff_left nofun).symm, h.slots, .inl rfl, nofun, hcause,
    fun hm hn => absurd hm hn⟩

/-- A module that cannot be put on the stack is lost. -/
lemma SearchInv.thrown_append (hp : phase.Lawful refusal) (h : SearchInv g phase s next)
    (hv : s.status v = phase.pending) (he : throws (.append v) = some e) :
    Thrown g phase throws refusal v s (s.enter phase v next) e (some v) := by
  have hvstack : v ∉ s.stack := fun hm => hp.pending_ne_busy (hv.symm.trans ((h.busy_iff v).mpr hm))
  have hidx : ∀ x ∈ s.stack, (s.enter phase v next).index x = s.index x :=
    fun x hx => ModuleState.index_enter_of_ne phase next (ne_of_mem_of_not_mem hx hvstack)
  refine ⟨⟨[], ∅, ?_, fun _ hm => hm.elim⟩, ⟨[], .enter hp hv (.inl rfl)⟩,
    { h.traced with not_pending := fun m hm => ?_ }, fun m => ?_, fun m hm => ?_, .inl rfl,
    fun m hm ha => ?_, .append v he .refl hvstack, fun hm => absurd hv (h.traced.not_pending v hm)⟩
  · rw [ModuleState.abs_enter hp hv]
    exact .before h.valid v hidx
  · have hne : m ≠ v := by
      intro heq
      exact h.traced.not_pending m hm (heq ▸ hv)
    exact fun hpending => h.traced.not_pending m hm ((update_of_ne hne _ _).symm.trans hpending)
  · show Function.update s.status v phase.busy m = phase.busy ↔ m ∈ s.stack ∨ some v = some m
    by_cases hm : m = v
    · rw [hm, update_self]
      exact iff_of_true rfl (.inr rfl)
    · rw [update_of_ne hm, h.busy_iff, or_iff_left fun heq => hm (Option.some.inj heq).symm]
  · rw [ModuleState.visited_enter hp] at hm
    show (Function.update s.dfsIndex v (some next) m).isSome = true ∧
      (Function.update s.dfsAncestorIndex v (some next) m).isSome = true
    by_cases hmv : m = v
    · rw [hmv, update_self, update_self]
      exact ⟨rfl, rfl⟩
    · rw [update_of_ne hmv, update_of_ne hmv]
      exact h.slots m (hm.resolve_left hmv)
  · exact h.traced.not_pending m ha (Option.some.inj hm ▸ hv)

lemma SearchInv.refused_runs (hp : phase.Lawful refusal) (h : SearchInv g phase s next) {fuel : ℕ}
    (hvs : v ∉ s.visited phase) (hpending : s.status v ≠ phase.pending) :
    Runs (innerModule g throws phase (fuel + 1) v next') s (fun _ _ => False)
      fun e s' => s' = s ∧ refusal (s.status v) (s.evaluationError v) e := by
  obtain ⟨e, heq, hrefuse⟩ := hp.refuse v s ((Bool.not_eq_true _).mp hvs) hpending
    (h.minimum v) (h.errors v)
  rw [innerModule]
  exact .bind <| .get <| .ite (fun hv => absurd hv hvs) fun _ =>
    .ite (fun _ => ⟨.error e, s, heq, rfl, hrefuse⟩) fun hn => absurd hpending hn

/-- **The search has an outcome**: the visit of a module returns or throws. -/
theorem innerModule_runs [Finite M] (hp : phase.Lawful refusal) :
    ∀ (fuel : ℕ) (v : M) (next : ℕ) (s : ModuleState M ε), SearchInv g phase s next →
      (∀ y ∈ s.stack, g.Reaches y v) → remaining Set.univ (s.visited phase) < fuel →
      Runs (innerModule g throws phase fuel v next) s
        (fun next' s' => v ∈ s.visited phase ∧ s' = s ∧ next' = next ∨ Returned g phase throws v s s' next')
        fun e s' => ∃ lost, Thrown g phase throws refusal v s s' e lost := by
  intro fuel
  induction fuel with
  | zero => exact fun _ _ _ _ _ h => absurd h (Nat.not_lt_zero _)
  | succ fuel ih =>
    intro v next s h hreach hfuel
    by_cases hvs : v ∈ s.visited phase
    · rw [innerModule]
      exact .bind <| .get <| .ite (fun _ => .pure (.inl ⟨hvs, rfl, rfl⟩)) fun hv => absurd hvs hv
    by_cases hpending : s.status v ≠ phase.pending
    · refine (h.refused_runs hp hvs hpending).imp (fun _ _ hf => hf.elim) fun e s' hr => ?_
      obtain ⟨rfl, hrefuse⟩ := hr
      exact ⟨none, h.thrown (.refuse v .refl hvs hpending hrefuse)⟩
    have hv := not_not.mp hpending
    have hleft : remaining Set.univ (insert v (s.visited phase)) < fuel :=
      Nat.lt_of_lt_of_le (remaining_insert_lt Set.finite_univ (Set.mem_univ v) hvs)
        (Nat.le_of_lt_succ hfuel)
    rw [innerModule]
    refine .bind <| .get <| .ite (fun hv => absurd hv hvs) fun _ => .ite (fun hn => absurd hv hn)
      fun _ => .bind <| ModuleSetStatus_runs (hv ▸ hp.pending_lt_busy) <| .bind <| .modify <| .bind <|
      step_runs (fun happend => .bind <| .modify ?_) fun e he => ⟨some v, h.thrown_append hp hv he⟩
    refine .bind <| (visitRequests_runs hp hvs hreach (fun w n t ht hrt hsub => ih w n t ht hrt
      ((remaining_le Set.finite_univ hsub).trans_lt hleft)) (g.requestedModules v) 0 (next + 1) ∅ _
      (List.Subset.refl _) (fun _ hw => hw.elim) (.start hp h hv happend)).imp (fun next' t ht => ?_)
      fun _ _ ht => ht
    rw [Set.empty_union] at ht
    exact (Scanning.finish_runs hp h hvs hreach ht).imp (fun _ _ hr => .inr hr) fun _ _ ht => ht

end Visits

end SpiderMonkey
