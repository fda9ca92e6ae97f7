import SpiderMonkey.StructuredClone.Extension

/-!
# The stacks of the writer

The entries on the two stacks are those that are left of the objects on the object stack.  At the end of
the loop nothing is left, and the writer has written exactly the objects that can be reached.
-/

namespace SpiderMonkey.StructuredClone

open LittleEndian Script Relation List CloneValue Prod

variable {O : Type} (cx : WriteContext O)

/-! ## What is left of an object -/

/-- The values that are left to write of an object on the stack. -/
def pendingChildren (frame : O × ℕ) : List (CloneValue O) :=
  (pendingIds cx frame).filterMap (fun id => (cx.object frame.1).properties.lookup id) ++ pendingValues cx frame

variable {cx}

lemma drop_sub_succ {α : Type} {l : List α} {n : ℕ} (h : n + 1 ≤ l.length) :
    ∃ a, l.drop (l.length - (n + 1)) = a :: l.drop (l.length - n) := by
  have hlt : l.length - (n + 1) < l.length := by omega
  refine ⟨l[l.length - (n + 1)], ?_⟩
  rw [drop_eq_getElem_cons hlt]
  congr 2
  omega

lemma lookup_of_mem {properties : List (Id × CloneValue O)} (hnodup : (properties.map fst).Nodup)
    {p : Id × CloneValue O} (hp : p ∈ properties) : properties.lookup p.1 = some p.2 := by
  obtain ⟨l₁, l₂, rfl⟩ := append_of_mem hp
  rw [lookup_eq_some_iff]
  refine ⟨l₁, l₂, rfl, fun q hq => ?_⟩
  rw [map_append, map_cons, nodup_append] at hnodup
  exact bne_iff_ne.2 (hnodup.2.2 q.1 (mem_map_of_mem hq) p.1 mem_cons_self).symm

lemma mem_pendingChildren {obj : O} {v : CloneValue O} (h : v ∈ children cx obj) :
    v ∈ pendingChildren cx (obj, entryCount (cx.object obj)) ∨ v ∈ innerValues cx obj := by
  have hids : pendingIds cx (obj, entryCount (cx.object obj)) = entryIds (cx.object obj) := by
    simp [pendingIds, entryCount]
  have hvalues : pendingValues cx (obj, entryCount (cx.object obj)) = entryValues (cx.object obj) := by
    simp [pendingValues, entryCount]
  unfold pendingChildren
  rw [hids, hvalues]
  obtain h | h := mem_append.1 h
  · left
    obtain h | h := mem_append.1 h
    · obtain ⟨p, hp, rfl⟩ := mem_map.1 h
      refine mem_append_left _ (mem_filterMap.2 ⟨p.1, mem_map_of_mem hp, ?_⟩)
      exact lookup_of_mem (cx.nodup obj) hp
    · simp [h]
  · exact .inr h

lemma pendingChildren_subset {obj : O} {n : ℕ} {v : CloneValue O} (h : v ∈ pendingChildren cx (obj, n)) :
    v ∈ children cx obj := by
  refine mem_append_left _ ?_
  obtain h | h := mem_append.1 h
  · obtain ⟨id, -, hlookup⟩ := mem_filterMap.1 h
    obtain ⟨l₁, l₂, heq, -⟩ := lookup_eq_some_iff.1 hlookup
    simp [heq]
  · exact mem_append_right _ (drop_subset _ _ h)

lemma pop_value {obj : O} {n : ℕ} {key : CloneValue O} {vs tail : List (CloneValue O)}
    (hle : n + 1 ≤ (entryValues (cx.object obj)).length)
    (h : pendingValues cx (obj, n + 1) ++ tail = key :: vs) :
    pendingValues cx (obj, n + 1) = key :: pendingValues cx (obj, n) ∧ vs = pendingValues cx (obj, n) ++ tail := by
  obtain ⟨a, ha⟩ := drop_sub_succ hle
  have hpending : pendingValues cx (obj, n + 1) = a :: pendingValues cx (obj, n) := ha
  rw [hpending, cons_append, List.cons.injEq] at h
  obtain ⟨rfl, rfl⟩ := h
  exact ⟨hpending, rfl⟩

lemma pop_id {obj : O} {n : ℕ} {id : Id} {ids tail : List Id} (hle : n + 1 ≤ (entryIds (cx.object obj)).length)
    (h : pendingIds cx (obj, n + 1) ++ tail = id :: ids) :
    pendingIds cx (obj, n + 1) = id :: pendingIds cx (obj, n) ∧ ids = pendingIds cx (obj, n) ++ tail := by
  obtain ⟨a, ha⟩ := drop_sub_succ hle
  have hpending : pendingIds cx (obj, n + 1) = a :: pendingIds cx (obj, n) := ha
  rw [hpending, cons_append, List.cons.injEq] at h
  obtain ⟨rfl, rfl⟩ := h
  exact ⟨hpending, rfl⟩

lemma pendingIds_eq_nil {obj : O} (h : (cx.object obj).properties = []) (n : ℕ) :
    pendingIds cx (obj, n) = [] := by simp [pendingIds, entryIds, h]

lemma pendingValues_eq_nil {obj : O} (h : entryValues (cx.object obj) = []) (n : ℕ) :
    pendingValues cx (obj, n) = [] := by simp [pendingValues, h]

/-! ## The invariant -/

variable (cx) in
/-- The writer has come from `w₀` in writing `v`: it has remembered the objects `new`, of which `frames`
are still on the stack. -/
structure Stacked (avoid : List O) (v : CloneValue O) (w₀ w : Writer O) (frames : List (O × ℕ))
    (new : List O) : Prop where
  growth : Growth cx w₀ w new
  avoided : ∀ o ∈ avoid, o ∈ w₀.memory
  root : ∀ r, v = .object r → r ∈ w.memory
  reached : ∀ o ∈ new, Reaches cx avoid v o
  complete : ∀ o ∈ new, ∀ c, object c ∈ children cx o →
    c ∈ w.memory ∨ ∃ n, (o, n) ∈ frames ∧ object c ∈ pendingChildren cx (o, n)
  objs : w.objs = frames.map fst
  counts : w.counts = frames.map snd
  objectEntries : w.objectEntries = frames.flatMap (pendingIds cx)
  otherEntries : w.otherEntries = frames.flatMap (pendingValues cx)
  frames_new : ∀ f ∈ frames, f.1 ∈ new
  frames_nodup : (frames.map fst).Nodup
  frames_le : ∀ f ∈ frames, f.2 ≤ entryCount (cx.object f.1)
  frames_even : ∀ f ∈ frames, ∀ entries, cx.object f.1 = .map entries → Even f.2

lemma length_interleave (entries : List (CloneValue O × CloneValue O)) :
    (WriteOp.interleave entries).length = 2 * entries.length := by
  unfold WriteOp.interleave
  induction entries with
  | nil => rfl
  | cons entry entries ih =>
    rw [flatMap_cons, List.length_append, ih, length_cons]
    simp only [length_cons, length_nil]
    omega

lemma even_entryCount {obj : O} {entries : List (CloneValue O × CloneValue O)}
    (h : cx.object obj = .map entries) : Even (entryCount (cx.object obj)) := by
  refine ⟨entries.length, ?_⟩
  simp only [h, entryCount, entryIds, CloneObject.properties, entryValues, map_nil, length_nil, length_interleave]
  omega

/-- The values in a new object have been written or are left to write. -/
lemma Extension.complete {w w' : Writer O} {frames : List (O × ℕ)} {new : List O}
    (h : Extension cx w w' frames new) {o c : O} (ho : o ∈ new) (hc : object c ∈ children cx o) :
    c ∈ w'.memory ∨ ∃ n, (o, n) ∈ frames ∧ object c ∈ pendingChildren cx (o, n) := by
  obtain hpending | hinner := mem_pendingChildren hc
  · right
    have hentries : (cx.object o).hasEntries = true := by
      by_contra hentries
      obtain ⟨hproperties, hvalues⟩ := CloneObject.entries_of_not_hasEntries (Bool.eq_false_of_not_eq_true hentries)
      simp [pendingChildren, pendingIds, pendingValues, entryIds, hproperties, hvalues] at hpending
    obtain ⟨f, hf, rfl⟩ := mem_map.1 (h.pushed o ho hentries)
    refine ⟨f.2, hf, ?_⟩
    rwa [(h.frames_new f hf).2.2]
  · exact .inl (h.inner o ho c hinner)

namespace Stacked

variable {avoid : List O} {v : CloneValue O} {w₀ w w₁ w' : Writer O} {frames : List (O × ℕ)}
  {new : List O}

lemma start (hobjs : w₀.objs = []) (hcounts : w₀.counts = []) (hids : w₀.objectEntries = [])
    (hvalues : w₀.otherEntries = []) (havoid : ∀ o ∈ avoid, o ∈ w₀.memory) (h : Covers cx [v] w₀ w) :
    ∃ frames new, Stacked cx avoid v w₀ w frames new := by
  obtain ⟨frames, new, hext, hroots, hreach⟩ := h
  refine ⟨frames, new, hext.toGrowth, havoid, fun r hr => hroots r (by simp [hr]), fun o ho => ?_,
    fun o ho c hc => ?_, by rw [hext.objs, hobjs, append_nil], by rw [hext.counts, hcounts, append_nil],
    by rw [hext.objectEntries, hids, append_nil], by rw [hext.otherEntries, hvalues, append_nil],
    fun f hf => (hext.frames_new f hf).1, hext.frames_nodup, fun f hf => (hext.frames_new f hf).2.2.le,
    fun f hf entries hobj => (hext.frames_new f hf).2.2 ▸ even_entryCount hobj⟩
  · obtain ⟨v', hv', hreached⟩ := hreach o ho
    obtain rfl : v' = v := by simpa using hv'
    exact hreached.mono havoid
  · exact hext.complete ho hc

lemma next {obj : O} {n n' : ℕ} {vs : List (CloneValue O)}
    (h : Stacked cx avoid v w₀ w ((obj, n) :: frames) new) (hle : n' ≤ n)
    (heven : ∀ entries, cx.object obj = .map entries → Even n → Even n')
    (hsub : ∀ c, object c ∈ vs → object c ∈ children cx obj)
    (hleft : ∀ c, object c ∈ pendingChildren cx (obj, n) →
      object c ∈ vs ∨ object c ∈ pendingChildren cx (obj, n'))
    (hcovers : Covers cx vs (w.take (n' :: frames.map snd)
      (((obj, n') :: frames).flatMap (pendingIds cx)) (((obj, n') :: frames).flatMap (pendingValues cx))) w') :
    ∃ frames' new', Stacked cx avoid v w₀ w' (frames' ++ (obj, n') :: frames) (new ++ new') := by
  obtain ⟨frames', new', hext, hroots, hreach⟩ := hcovers
  have htake : Growth cx w (w.take (n' :: frames.map snd)
      (((obj, n') :: frames).flatMap (pendingIds cx)) (((obj, n') :: frames).flatMap (pendingValues cx))) [] :=
    .of_same rfl ⟨[], (append_nil _).symm⟩ rfl rfl rfl rfl rfl
  have hgrowth : Growth cx w w' new' := htake.trans hext.toGrowth
  have hobj : obj ∈ new := h.frames_new _ mem_cons_self
  have htop : ∀ f ∈ (obj, n') :: frames, ∃ f₀ ∈ (obj, n) :: frames, f₀.1 = f.1 ∧ f.2 ≤ f₀.2 ∧
      ∀ entries, cx.object f.1 = .map entries → Even f₀.2 → Even f.2 := by
    intro f hf
    obtain rfl | hf := mem_cons.1 hf
    · exact ⟨_, mem_cons_self, rfl, hle, heven⟩
    · exact ⟨f, mem_cons_of_mem _ hf, rfl, le_rfl, fun _ _ h => h⟩
  refine ⟨frames', new', h.growth.trans hgrowth, h.avoided, fun r hr => hgrowth.memory_subset (h.root r hr),
    fun o ho => ?_, fun o ho c hc => ?_, ?_, ?_, ?_, ?_, fun f hf => ?_, ?_, fun f hf => ?_,
    fun f hf entries hmap => ?_⟩
  · obtain ho | ho := mem_append.1 ho
    · exact h.reached o ho
    · obtain ⟨v', hv', hreached⟩ := hreach o ho
      have hreached' : Reaches cx avoid v' o := hreached.mono fun o ho => h.growth.memory_subset (h.avoided o ho)
      obtain ⟨r, hr, -⟩ := id hreached
      obtain rfl : v' = .object r := by
        cases v' with
        | object o => exact congrArg _ (Option.some.inj hr)
        | _ => simp [object?] at hr
      exact (h.reached obj hobj).child (hsub r hv') hreached'
  · obtain ho | ho := mem_append.1 ho
    · obtain hmem | ⟨m, hm, hpending⟩ := h.complete o ho c hc
      · exact .inl (hgrowth.memory_subset hmem)
      · obtain heq | hm := mem_cons.1 hm
        · cases heq
          obtain hv | hpending := hleft c hpending
          · exact .inl (hroots c hv)
          · exact .inr ⟨n', by simp, hpending⟩
        · exact .inr ⟨m, by simp [hm], hpending⟩
    · obtain hmem | ⟨m, hm, hpending⟩ := hext.complete ho hc
      · exact .inl hmem
      · exact .inr ⟨m, by simp [hm], hpending⟩
  · rw [hext.objs, map_append, map_cons]
    exact congrArg _ h.objs
  · rw [hext.counts, map_append, map_cons]
    rfl
  · rw [hext.objectEntries, flatMap_append]
    rfl
  · rw [hext.otherEntries, flatMap_append]
    rfl
  · obtain hf | hf := mem_append.1 hf
    · exact mem_append_right _ (hext.frames_new f hf).1
    · obtain ⟨f₀, hf₀, hfst, -⟩ := htop f hf
      exact mem_append_left _ (hfst ▸ h.frames_new f₀ hf₀)
  · rw [map_append]
    refine nodup_append.2 ⟨hext.frames_nodup, h.frames_nodup, fun a ha b hb hab => ?_⟩
    obtain ⟨f', hf', rfl⟩ := mem_map.1 ha
    have hb' : b ∈ new := by
      obtain ⟨f, hf, rfl⟩ := mem_map.1 hb
      obtain ⟨f₀, hf₀, hfst, -⟩ := htop f hf
      exact hfst ▸ h.frames_new f₀ hf₀
    exact hgrowth.fresh f'.1 (hext.frames_new f' hf').1 (hab ▸ h.growth.new_subset hb')
  · obtain hf | hf := mem_append.1 hf
    · exact (hext.frames_new f hf).2.2.le
    · obtain ⟨f₀, hf₀, hfst, hle, -⟩ := htop f hf
      exact hle.trans (hfst ▸ h.frames_le f₀ hf₀)
  · obtain hf | hf := mem_append.1 hf
    · exact (hext.frames_new f hf).2.2 ▸ even_entryCount hmap
    · obtain ⟨f₀, hf₀, hfst, -, heven⟩ := htop f hf
      exact heven entries hmap (h.frames_even f₀ hf₀ entries (hfst ▸ hmap))

lemma next_value {obj : O} {n n' : ℕ} {vs : List (CloneValue O)}
    (h : Stacked cx avoid v w₀ w ((obj, n) :: frames) new) (hproperties : (cx.object obj).properties = [])
    (hle : n' ≤ n) (heven : ∀ entries, cx.object obj = .map entries → Even n → Even n')
    (hvs : pendingValues cx (obj, n) = vs ++ pendingValues cx (obj, n'))
    (hcovers : Covers cx vs (w.take (n' :: frames.map snd) (((obj, n) :: frames).flatMap (pendingIds cx))
      (((obj, n') :: frames).flatMap (pendingValues cx))) w') :
    ∃ frames' new', Stacked cx avoid v w₀ w' frames' new' := by
  have hids : ((obj, n) :: frames).flatMap (pendingIds cx) = ((obj, n') :: frames).flatMap (pendingIds cx) := by
    simp [pendingIds_eq_nil hproperties]
  have hchildren : pendingChildren cx (obj, n) = vs ++ pendingChildren cx (obj, n') := by
    simp [pendingChildren, pendingIds_eq_nil hproperties, hvs]
  rw [hids] at hcovers
  obtain ⟨frames', new', h'⟩ := h.next hle heven
    (fun c hc => pendingChildren_subset (hchildren ▸ mem_append_left _ hc))
    (fun c hc => mem_append.1 (hchildren ▸ hc)) hcovers
  exact ⟨_, _, h'⟩

lemma close {obj : O} (h : Stacked cx avoid v w₀ w ((obj, 0) :: frames) new) (bytes : List Byte) :
    Stacked cx avoid v w₀ ((w.emit bytes).close (frames.map fst) (frames.map snd)) frames new := by
  have hpending : pendingIds cx (obj, 0) = [] ∧ pendingValues cx (obj, 0) = [] := by
    simp [pendingIds, pendingValues]
  have hgrowth : Growth cx w ((w.emit bytes).close (frames.map fst) (frames.map snd)) [] :=
    .of_same rfl ⟨bytes, rfl⟩ rfl rfl rfl rfl rfl
  refine ⟨append_nil new ▸ h.growth.trans hgrowth, h.avoided, h.root, h.reached, fun o ho c hc => ?_,
    rfl, rfl, ?_, ?_, fun f hf => h.frames_new f (mem_cons_of_mem _ hf), (nodup_cons.1 h.frames_nodup).2,
    fun f hf => h.frames_le f (mem_cons_of_mem _ hf),
    fun f hf => h.frames_even f (mem_cons_of_mem _ hf)⟩
  · obtain hmem | ⟨m, hm, hpending'⟩ := h.complete o ho c hc
    · exact .inl hmem
    · obtain heq | hm := mem_cons.1 hm
      · cases heq
        simp [pendingChildren, hpending.1, hpending.2] at hpending'
      · exact .inr ⟨m, hm, hpending'⟩
  · refine Eq.trans h.objectEntries ?_
    simp [hpending.1]
  · refine Eq.trans h.otherEntries ?_
    simp [hpending.2]

/-! ## Rounds keep the invariant -/

lemma uncons {obj : O} {objs : List O} {n : ℕ} {counts : List ℕ} (h : Stacked cx avoid v w₀ w frames new)
    (hobjs : w.objs = obj :: objs) (hcounts : w.counts = n :: counts) :
    ∃ rest, frames = (obj, n) :: rest ∧ objs = rest.map Prod.fst ∧ counts = rest.map Prod.snd := by
  have hobjs' := h.objs.symm.trans hobjs
  have hcounts' := h.counts.symm.trans hcounts
  cases frames with
  | nil => simp at hobjs'
  | cons f rest =>
    rw [map_cons, List.cons.injEq] at hobjs' hcounts'
    exact ⟨rest, congrArg (· :: rest) (Prod.ext hobjs'.1 hcounts'.1), hobjs'.2.symm, hcounts'.2.symm⟩

lemma le_length {obj : O} {n : ℕ} (h : Stacked cx avoid v w₀ w ((obj, n) :: frames) new) :
    ((cx.object obj).properties = [] → n ≤ (entryValues (cx.object obj)).length) ∧
      (entryValues (cx.object obj) = [] → n ≤ (entryIds (cx.object obj)).length) := by
  have hle : n ≤ entryCount (cx.object obj) := h.frames_le _ mem_cons_self
  constructor
  · intro hproperties
    simpa [entryCount, entryIds, hproperties] using hle
  · intro hvalues
    simpa [entryCount, hvalues] using hle

lemma next_id {obj : O} {n : ℕ} {id : Id} {ids : List Id} {vs : List (CloneValue O)}
    (h : Stacked cx avoid v w₀ w ((obj, n + 1) :: frames) new)
    (hobj : (∃ properties, cx.object obj = .plain properties) ∨
      ∃ length properties, cx.object obj = .array length properties)
    (hids : w.objectEntries = id :: ids)
    (hsub : ∀ c, object c ∈ vs → (cx.object obj).properties.lookup id = some (.object c))
    (hleft : ∀ c, (cx.object obj).properties.lookup id = some (.object c) → object c ∈ vs)
    (hcovers : Covers cx vs (w.take (n :: frames.map snd) ids w.otherEntries) w') :
    ∃ frames' new', Stacked cx avoid v w₀ w' frames' new' := by
  have hvalues : entryValues (cx.object obj) = [] := by
    obtain ⟨properties, hc⟩ | ⟨length, properties, hc⟩ := hobj <;> rw [hc] <;> rfl
  obtain ⟨hfirst, htail⟩ := pop_id (h.le_length.2 hvalues) (h.objectEntries.symm.trans hids)
  have hothers : w.otherEntries = ((obj, n) :: frames).flatMap (pendingValues cx) := by
    simp [h.otherEntries, pendingValues_eq_nil hvalues]
  have hpending (c : O) : object c ∈ pendingChildren cx (obj, n + 1) ↔
      (cx.object obj).properties.lookup id = some (.object c) ∨ object c ∈ pendingChildren cx (obj, n) := by
    unfold pendingChildren
    rw [hfirst, pendingValues_eq_nil hvalues, pendingValues_eq_nil hvalues, append_nil, append_nil]
    simp
  rw [htail, hothers] at hcovers
  obtain ⟨frames', new', h'⟩ := h.next (Nat.le_succ n)
    (fun entries hmap => by obtain ⟨_, hc⟩ | ⟨_, _, hc⟩ := hobj <;> simp [hc] at hmap)
    (fun c hc => pendingChildren_subset ((hpending c).2 (.inl (hsub c hc))))
    (fun c hc => ((hpending c).1 hc).imp_left (hleft c)) hcovers
  exact ⟨_, _, h'⟩

variable [DecidableEq O]

theorem round {again : Bool} (h : Stacked cx avoid v w₀ w frames new) (hround : Round cx w again w') :
    (again = true → ∃ frames' new', Stacked cx avoid v w₀ w' frames' new') ∧
      (again = false → Stacked cx avoid v w₀ w' [] new) := by
  cases hround with
  | done hobjs hcounts =>
    refine ⟨fun h => by simp at h, fun _ => ?_⟩
    have hframes : frames = [] := map_eq_nil_iff.1 (h.objs.symm.trans hobjs)
    exact hframes ▸ h
  | close hobjs hcounts =>
    refine ⟨fun _ => ?_, fun h => by simp at h⟩
    obtain ⟨rest, rfl, rfl, rfl⟩ := h.uncons hobjs hcounts
    exact ⟨rest, new, h.close _⟩
  | @pair obj _ count _ entries key val tail w₁ _ hobjs hcounts hobj hentries hkey hval =>
    refine ⟨fun _ => ?_, fun h => by simp at h⟩
    obtain ⟨rest, rfl, rfl, rfl⟩ := h.uncons hobjs hcounts
    have hproperties : (cx.object obj).properties = [] := by rw [hobj]; rfl
    have hle : count + 1 ≤ (entryValues (cx.object obj)).length := h.le_length.1 hproperties
    obtain ⟨n, rfl⟩ : ∃ n, count = n + 1 := by
      obtain ⟨k, hk⟩ := h.frames_even _ mem_cons_self entries hobj
      exact ⟨count - 1, by simp only at hk; omega⟩
    obtain ⟨hfirst, hvs⟩ := pop_value hle (h.otherEntries.symm.trans hentries)
    obtain ⟨hsecond, htail⟩ := pop_value (by omega) hvs.symm
    have hcovers := (Covers.of_wrote hkey).append (.of_wrote hval)
    rw [h.objectEntries, htail] at hcovers
    refine (h.next_value hproperties (show n ≤ n + 1 + 1 by omega) (fun _ _ heven => ?_) ?_ hcovers)
    · simpa [Nat.even_add_one] using heven
    · rw [hfirst, hsecond]
      rfl
  | @single obj _ count _ key tail _ hobjs hcounts hobj hentries hkey =>
    refine ⟨fun _ => ?_, fun h => by simp at h⟩
    obtain ⟨rest, rfl, rfl, rfl⟩ := h.uncons hobjs hcounts
    have hproperties : (cx.object obj).properties = [] := by
      obtain ⟨keys, hc⟩ | ⟨slots, parent, hc⟩ := hobj <;> rw [hc] <;> rfl
    obtain ⟨hfirst, htail⟩ := pop_value (h.le_length.1 hproperties) (h.otherEntries.symm.trans hentries)
    have hcovers := Covers.of_wrote hkey
    rw [h.objectEntries, htail] at hcovers
    refine (h.next_value hproperties (Nat.le_succ count) (fun entries hmap _ => ?_) hfirst hcovers)
    obtain ⟨keys, hc⟩ | ⟨slots, parent, hc⟩ := hobj <;> simp [hc] at hmap
  | @property obj _ count _ id ids val w₁ _ hobjs hcounts hobj hids hlookup hkey hval =>
    refine ⟨fun _ => ?_, fun h => by simp at h⟩
    obtain ⟨rest, rfl, rfl, rfl⟩ := h.uncons hobjs hcounts
    have hcovers := (Covers.of_wrote hkey).append (.of_wrote hval)
    refine @h.next_id _ _ _ _ _ _ _ _ _ _ _ _ _ [id.toValue, val] hobj hids (fun c hc => ?_) (fun c hc => ?_) hcovers
    · cases id <;> simp_all [Id.toValue]
    · cases id <;> simp_all [Id.toValue]
  | @gone obj _ count _ id ids hobjs hcounts hobj hids hlookup =>
    refine ⟨fun _ => ?_, fun h => by simp at h⟩
    obtain ⟨rest, rfl, rfl, rfl⟩ := h.uncons hobjs hcounts
    exact h.next_id hobj hids (fun c (hc : _ ∈ []) => absurd hc not_mem_nil) (by simp [hlookup]) (.nil _)

/-- The loop ends when nothing is left. -/
theorem ensures_iterate (h : Stacked cx avoid v w₀ w frames new) (rounds : ℕ) :
    Script.Ensures (Script.iterate (WriteOp.writeRound cx) rounds) w
      (fun _ w' => ∃ new', Stacked cx avoid v w₀ w' [] new') fun _ _ => True := by
  refine Script.Ensures.iterate (I := fun w => ∃ frames new, Stacked cx avoid v w₀ w frames new)
    (fun w ⟨frames, new, h⟩ => ?_) rounds ⟨frames, new, h⟩
  refine (WriteOp.ensures_writeRound w).imp (fun again w' hround => ?_) fun _ _ h => h
  obtain ⟨htrue, hfalse⟩ := h.round hround
  exact ⟨htrue, fun hagain => ⟨new, hfalse hagain⟩⟩

omit [DecidableEq O] in
/-- In the end the new objects are those that can be reached. -/
theorem mem_iff_reaches (h : Stacked cx avoid v w₀ w [] new) (hmemory : ∀ o ∈ w₀.memory, o ∈ avoid) (o : O) :
    o ∈ new ↔ Reaches cx avoid v o := by
  refine ⟨h.reached o, fun hreach => ?_⟩
  have hmem (o : O) (ho : o ∈ w.memory) (hne : o ∉ avoid) : o ∈ new := by
    rw [h.growth.memory] at ho
    exact (mem_append.1 ho).resolve_left fun h => hne (hmemory o h)
  obtain ⟨r, hr, hroot, hpath⟩ := hreach
  induction hpath with
  | refl =>
    refine hmem r (h.root r ?_) hroot
    cases v with
    | object o => exact congrArg _ (Option.some.inj hr)
    | _ => simp [object?] at hr
  | tail _ hedge ih =>
    obtain hc | ⟨n, hframe, -⟩ := h.complete _ ih _ hedge.1
    · exact hmem _ hc hedge.2
    · cases hframe

end Stacked

end SpiderMonkey.StructuredClone
