import SpiderMonkey.Jit.AliasSteps

/-!
# The invariant is kept

The invariant of alias analysis is kept by entering a loop, by each instruction and by each back edge, and
so by each block (`Inv.visitBlock`) and by the whole analysis (`exists_foldlM`).
-/

namespace SpiderMonkey.AliasAnalysis

open List

namespace Graph

variable {graph : Graph} {h h' u u' b : ℕ}

namespace IsLoop

lemma isLoopHeader (hloop : graph.IsLoop h u) : (graph.block h).isLoopHeader = true := by
  obtain ⟨-, -, hback, hlast⟩ := hloop
  simp only [isLoopBackedge, hlast, Bool.and_eq_true] at hback
  exact hback.1.1

lemma header_eq (hloop : graph.IsLoop h u) (hloop' : graph.IsLoop h' u) : h = h' :=
  Option.some.inj (hloop.2.2.2.symm.trans hloop'.2.2.2)

lemma backedge_eq (hloop : graph.IsLoop h u) (hloop' : graph.IsLoop h u') : u = u' := by
  obtain ⟨-, -, hback, hlast⟩ := hloop
  obtain ⟨-, -, hback', hlast'⟩ := hloop'
  simp only [isLoopBackedge, hlast, Bool.and_eq_true, beq_iff_eq] at hback
  simp only [isLoopBackedge, hlast', Bool.and_eq_true, beq_iff_eq] at hback'
  exact Option.some.inj (hback.2.symm.trans hback'.2)

end IsLoop

lemma exists_isLoop (hgraph : graph.Reducible) (hb : b < graph.numBlocks) (hback : graph.isLoopBackedge b = true) :
    ∃ h, graph.IsLoop h b := by
  cases hlast : (graph.block b).successors.getLast? with
  | none =>
    simp only [isLoopBackedge, hlast] at hback
    cases hback
  | some h => exact ⟨h, hgraph.successor_lt b hb h (mem_of_getLast? hlast), hb, hback, hlast⟩

/-- Of two loops with a block in common, the one that ends first is the inner one. -/
lemma IsLoop.le_header (hgraph : graph.Reducible) (hloop : graph.IsLoop h u) (hloop' : graph.IsLoop h' u')
    (hhb : h ≤ b) (hbu : b ≤ u) (hhb' : h' ≤ b) (hbu' : b ≤ u') (hle : u ≤ u') : h' ≤ h := by
  obtain hlt | hlt | ⟨-, hle'⟩ | ⟨hle', -⟩ := hgraph.nested h hloop.1 u hloop.2.1 h' hloop'.1 u' hloop'.2.1 hloop hloop'
  · omega
  · omega
  · obtain rfl : u = u' := le_antisymm hle hle'
    exact (hloop'.header_eq hloop).le
  · exact hle'

lemma Has.le_id {ins : MInstruction} (hins : graph.Has ins) :
    graph.firstInstruction h ≤ ins.id ↔ h ≤ ins.block := hins.firstInstruction_le_iff

lemma firstInstruction_strictMono : StrictMono graph.firstInstruction := fun _ _ => graph.firstInstruction_lt

lemma Has.lt_succ {ins x : MInstruction} (hx : graph.Has x) (hins : graph.Has ins) :
    x.id < ins.id + 1 ↔ x.id < ins.id ∨ x = ins := by
  rw [Nat.lt_succ_iff_lt_or_eq]
  exact or_congr_right ⟨hx.eq_of_id hins, fun heq => heq ▸ rfl⟩

lemma Has.lt_succ_of_ne {ins x : MInstruction} (hx : graph.Has x) (hins : graph.Has ins) (hne : x ≠ ins) :
    x.id < ins.id + 1 ↔ x.id < ins.id := by
  rw [hx.lt_succ hins, or_iff_left hne]

lemma Has.id_lt_start {ins : MInstruction} (hins : graph.Has ins) : ins.id < graph.start b ↔ ins.block < b := by
  rw [← not_le, hins.inBlock.start_le_iff, not_le]

end Graph

namespace State

variable {s s' : State} {ins : MInstruction} {h : ℕ}

lemma kept_cons {info : LoopAliasInfo} {outer : List LoopAliasInfo} (hs : s.loops = info :: outer) :
    s.Kept h ↔ h = info.loopHeader ∨ h ∈ outer.map LoopAliasInfo.loopHeader := by
  simp [Kept, hs]

lemma innermost_congr (hkept : ∀ h, s'.Kept h ↔ s.Kept h) : s'.Innermost ins h ↔ s.Innermost ins h := by
  simp only [Innermost, hkept]

end State

namespace Answers.Inv

open Graph State Nat

variable {answers : Answers} {graph : Graph} {hi lo m m' b : ℕ} {s : State} {ins : MInstruction}

lemma congr (h : answers.Inv graph hi lo m s) (hm : ∀ ins, graph.Has ins → (ins.id < m ↔ ins.id < m')) :
    answers.Inv graph hi lo m' s where
  mem_stores c store := by
    refine (h.mem_stores c store).trans (or_congr_right (exists_congr fun st => ?_))
    exact and_congr_right fun hst => by rw [hm st hst]
  sorted := h.sorted
  headers := h.headers
  kept := h.kept
  load ins hins hload hid := h.load ins hins hload ((hm ins hins).2 hid)
  mem_invariantLoads info hinfo ins := by
    refine (h.mem_invariantLoads info hinfo ins).trans (and_congr_right fun hins => ?_)
    rw [hm ins hins]

lemma initial : answers.Inv graph 0 0 0 (Answers.initial graph) where
  mem_stores c store := by simp [Answers.initial]
  sorted c := pairwise_singleton _ _
  headers := List.Pairwise.nil
  kept h := by simp [State.Kept, Answers.initial]
  load ins _ _ hid := absurd hid (Nat.not_lt_zero _)
  mem_invariantLoads info hinfo := absurd hinfo not_mem_nil

/-- The kept loops are listed inside out. -/
lemma kept_le {info : LoopAliasInfo} {outer : List LoopAliasInfo} (h : answers.Inv graph hi lo m s)
    (hs : s.loops = info :: outer) {header : ℕ} (hkept : header ∈ outer.map LoopAliasInfo.loopHeader) :
    header < info.loopHeader := by
  have hsort := h.headers
  rw [hs, map_cons, pairwise_cons] at hsort
  exact hsort.1 header hkept

lemma enterLoop (h : answers.Inv graph b b (graph.start b) s) (hgraph : graph.Reducible) (hb : b < graph.numBlocks) :
    answers.Inv graph (b + 1) b (graph.start b) (Answers.enterLoop graph b s) := by
  unfold Answers.enterLoop
  split_ifs with hheader
  · obtain ⟨u, hu, hloop⟩ := hgraph.header b hb hheader
    have hbu := hgraph.interval b hb u hu hloop
    have hkept (h' : ℕ) : State.Kept { s with loops := ⟨b, []⟩ :: s.loops } h' ↔ h' = b ∨ s.Kept h' := by
      simp [State.Kept]
    refine ⟨h.mem_stores, h.sorted, ?_, fun h' => ?_, h.load, fun info hinfo ins => ?_⟩
    · refine pairwise_cons.2 ⟨fun h' hh' => ?_, h.headers⟩
      exact ((h.kept h').1 hh').1
    · rw [hkept, h.kept]
      constructor
      · rintro (rfl | ⟨hlt, hex⟩)
        · exact ⟨lt_succ_self _, u, hloop, hbu⟩
        · exact ⟨lt_succ_of_lt hlt, hex⟩
      · rintro ⟨hlt, hex⟩
        exact (Nat.lt_succ_iff_lt_or_eq.1 hlt).symm.imp id fun hlt => ⟨hlt, hex⟩
    · -- the instructions so far are before the new loop
      obtain rfl | hinfo := mem_cons.1 hinfo
      · refine ⟨nofun, fun ⟨hins, _, hid, ⟨hle, _⟩, _⟩ => ?_⟩
        exact absurd (hins.id_lt_start.1 hid) (not_lt.2 hle)
      · refine (h.mem_invariantLoads info hinfo ins).trans ?_
        refine and_congr_right fun hins => and_congr_right fun _ => and_congr_right fun hid => ?_
        refine and_congr_left fun _ => and_congr_right fun _ => forall_congr' fun h' => ?_
        rw [hkept]
        have hlt := hins.id_lt_start.1 hid
        constructor
        · rintro hmax (rfl | hh') hle
          · omega
          · exact hmax hh' hle
        · exact fun hmax hh' => hmax (.inr hh')
  · refine ⟨h.mem_stores, h.sorted, h.headers, fun h' => ?_, h.load, h.mem_invariantLoads⟩
    rw [h.kept]
    refine and_congr_left fun ⟨u, hloop, _⟩ => ?_
    have hne : h' ≠ b := fun heq => hheader (heq ▸ hloop.isLoopHeader)
    omega

/-! ## Instructions -/

/-- What the most recent store accounts for. -/
lemma initialDep (h : answers.Inv graph hi lo ins.id s) :
    answers.InitialDep graph ins (answers.lastStore graph s ins) := by
  obtain ⟨-, hsource, hle⟩ := foldl_last (answers.findStore graph s ins) ins.aliasSet.categories
    (graph.firstInstruction 0)
  refine ⟨?_, fun st hst hlt hreach => ?_⟩
  · obtain heq | ⟨c, -, store, hfind, heq⟩ := hsource
    · exact .inl heq
    · obtain rfl | ⟨st, hst, hstore, -, hlt, rfl⟩ := (h.mem_stores c store).1 (mem_of_find?_eq_some hfind)
      · exact .inl heq
      · exact .inr ⟨st, hst, hstore, hlt, heq⟩
  · obtain ⟨hhas, hstore, ⟨c, hc, hc'⟩, hmay⟩ := hst
    have hmem := (h.mem_stores c ⟨st.id, st.block⟩).2 (.inr ⟨st, hhas, hstore, hc', hlt, rfl⟩)
    have hfound : (answers.mayAlias ins.id st.id &&
        graph.blockMightReach (ins.block + 1) st.block ins.block) = true := by rw [hmay, hreach]; rfl
    obtain ⟨found, hfind, hle'⟩ := (h.sorted c).exists_find (p := fun store =>
      answers.mayAlias ins.id store.id && graph.blockMightReach (ins.block + 1) store.block ins.block) hmem hfound
    exact hle'.trans (hle c (AliasSet.mem_categories.2 hc) found hfind)

section VisitInstruction

variable (h : answers.Inv graph (b + 1) b ins.id s) (hins : graph.Has ins)
include h hins

lemma stores_skip (hstore : ¬ ins.IsStore) (c : Fin NumCategories) (store : Store) :
    store ∈ s.stores c ↔ store = ⟨graph.firstInstruction 0, 0⟩ ∨ ∃ st, graph.Has st ∧ st.IsStore ∧
      st.aliasSet.flags c = true ∧ st.id < ins.id + 1 ∧ store = ⟨st.id, st.block⟩ := by
  refine (h.mem_stores c store).trans (or_congr_right (exists_congr fun st => ?_))
  refine and_congr_right fun hst => and_congr_right fun hst' => ?_
  rw [hst.lt_succ_of_ne hins fun heq => hstore (heq ▸ hst')]

lemma skip (hstore : ¬ ins.IsStore) (hload : ¬ ins.IsLoad) : answers.Inv graph (b + 1) b (ins.id + 1) s where
  mem_stores := h.stores_skip hins hstore
  sorted := h.sorted
  headers := h.headers
  kept := h.kept
  load x hx hxl hlt := h.load x hx hxl ((hx.lt_succ_of_ne hins fun heq => hload (heq ▸ hxl)).1 hlt)
  mem_invariantLoads info hinfo x := by
    refine (h.mem_invariantLoads info hinfo x).trans ?_
    refine and_congr_right fun hx => and_congr_right fun hxl => ?_
    rw [hx.lt_succ_of_ne hins fun heq => hload (heq ▸ hxl)]

lemma visitStore (hstore : ins.IsStore) : answers.Inv graph (b + 1) b (ins.id + 1)
    { s with stores := fun c => if ins.aliasSet.flags c = true then ⟨ins.id, ins.block⟩ :: s.stores c
      else s.stores c } := by
  have hskip (x : MInstruction) (hx : graph.Has x) (hxl : x.IsLoad) : x.id < ins.id + 1 ↔ x.id < ins.id :=
    hx.lt_succ_of_ne hins fun heq => hxl.not_isStore (heq ▸ hstore)
  refine ⟨fun c x => ?_, fun c => ?_, h.headers, h.kept, fun x hx hxl hlt => ?_, fun info hinfo x => ?_⟩
  · dsimp only
    split_ifs with hc
    · rw [mem_cons, h.mem_stores]
      constructor
      · rintro (rfl | rfl | ⟨st, hst, hst', hflag, hlt, rfl⟩)
        · exact .inr ⟨ins, hins, hstore, hc, lt_succ_self _, rfl⟩
        · exact .inl rfl
        · exact .inr ⟨st, hst, hst', hflag, lt_succ_of_lt hlt, rfl⟩
      · rintro (rfl | ⟨st, hst, hst', hflag, hlt, rfl⟩)
        · simp
        · obtain hlt | rfl := (hst.lt_succ hins).1 hlt
          · exact .inr (.inr ⟨st, hst, hst', hflag, hlt, rfl⟩)
          · exact .inl rfl
    · refine (h.mem_stores c x).trans (or_congr_right (exists_congr fun st => ?_))
      refine and_congr_right fun hst => and_congr_right fun _ => and_congr_right fun hflag => ?_
      rw [hst.lt_succ_of_ne hins fun heq => hc (heq ▸ hflag)]
  · dsimp only
    split_ifs with hc
    · refine pairwise_cons.2 ⟨fun x hx => ?_, h.sorted c⟩
      obtain rfl | ⟨st, -, -, -, hlt, rfl⟩ := (h.mem_stores c x).1 hx
      · exact hins.le_id.2 (Nat.zero_le _)
      · exact hlt.le
    · exact h.sorted c
  · exact h.load x hx hxl ((hskip x hx hxl).1 hlt)
  · refine (h.mem_invariantLoads info hinfo x).trans ?_
    refine and_congr_right fun hx => and_congr_right fun hxl => ?_
    rw [hskip x hx hxl]
    rfl

lemma visitLoad (hblock : ins.block = b) (hload : ins.IsLoad) : answers.Inv graph (b + 1) b (ins.id + 1)
    (addInvariantLoad graph ins (answers.lastStore graph s ins)
      (s.setDependency ins.id (answers.lastStore graph s ins))) := by
  set dep := answers.lastStore graph s ins
  set s' := s.setDependency ins.id dep
  have hself : s'.dependency ins.id = some dep := Function.update_self _ _ _
  have hother {x : MInstruction} (hlt : x.id < ins.id) : s'.dependency x.id = s.dependency x.id :=
    Function.update_of_ne hlt.ne _ _
  have hopen : answers.Open graph b ins dep := by
    refine ⟨h.initialDep, fun h' u hloop hlt => ?_⟩
    have := hloop.2.2
    omega
  have hstores := h.stores_skip hins hload.not_isStore
  have hloads (x : MInstruction) (hx : graph.Has x) (hxl : x.IsLoad) (hlt : x.id < ins.id + 1) :
      ∃ d, s'.dependency x.id = some d ∧ (answers.Open graph b x d ∨ ∃ h u, u < b ∧ answers.Fixed graph h u x d) := by
    obtain hlt | rfl := (hx.lt_succ hins).1 hlt
    · rw [hother hlt]
      exact h.load x hx hxl hlt
    · exact ⟨dep, hself, .inl hopen⟩
  cases hs : s.loops with
  | nil =>
    have hloops : (addInvariantLoad graph ins dep s').loops = [] := addInvariantLoad_nil graph ins dep hs
    refine ⟨?_, ?_, ?_, fun h' => ?_, ?_, fun info hinfo => ?_⟩
    · rw [addInvariantLoad_stores]
      exact hstores
    · rw [addInvariantLoad_stores]
      exact h.sorted
    · rw [hloops]
      exact List.Pairwise.nil
    · rw [State.Kept, hloops, ← hs]
      exact h.kept h'
    · simpa using hloads
    · rw [hloops] at hinfo
      cases hinfo
  | cons head outer =>
    have hs' : s'.loops = head :: outer := hs
    obtain ⟨new, hloops, hnew⟩ := addInvariantLoad_cons graph ins dep hs'
    have hkept (h' : ℕ) : (addInvariantLoad graph ins dep s').Kept h' ↔ s.Kept h' := by
      rw [State.kept_cons hloops, State.kept_cons hs]
    have hhead : head.loopHeader ≤ ins.block := by
      have := ((h.kept head.loopHeader).1 ((State.kept_cons hs).2 (.inl rfl))).1
      omega
    have hmax : s.Innermost ins head.loopHeader := by
      refine ⟨hhead, fun h' hh' _ => ?_⟩
      obtain rfl | hh' := (State.kept_cons hs).1 hh'
      · exact le_rfl
      · exact (h.kept_le hs hh').le
    refine ⟨?_, ?_, ?_, fun h' => (hkept h').trans (h.kept h'), ?_, fun info hinfo x => ?_⟩
    · rw [addInvariantLoad_stores]
      exact hstores
    · rw [addInvariantLoad_stores]
      exact h.sorted
    · have hsort := h.headers
      rw [hs] at hsort
      rw [hloops]
      exact hsort
    · simpa using hloads
    · rw [State.innermost_congr hkept, addInvariantLoad_dependency]
      rw [hloops] at hinfo
      obtain rfl | hinfo := mem_cons.1 hinfo
      · have hold := h.mem_invariantLoads head (hs ▸ mem_cons_self) x
        rw [mem_append, hnew, hold]
        constructor
        · rintro (⟨hx, hxl, hlt, hin, d, hd, hdlt⟩ | ⟨rfl, hdlt⟩)
          · exact ⟨hx, hxl, lt_succ_of_lt hlt, hin, d, (hother hlt).trans hd, hdlt⟩
          · exact ⟨hins, hload, lt_succ_self _, hmax, dep, hself, hdlt⟩
        · rintro ⟨hx, hxl, hlt, hin, d, hd, hdlt⟩
          obtain hlt | rfl := (hx.lt_succ hins).1 hlt
          · exact .inl ⟨hx, hxl, hlt, hin, d, (hother hlt).symm.trans hd, hdlt⟩
          · obtain rfl := Option.some.inj (hself.symm.trans hd)
            exact .inr ⟨rfl, hdlt⟩
      · -- the load is not added to the outer loops
        have hlt' := h.kept_le hs (mem_map_of_mem hinfo)
        refine (h.mem_invariantLoads info (hs ▸ mem_cons_of_mem _ hinfo) x).trans ?_
        refine and_congr_right fun hx => and_congr_right fun hxl => ?_
        constructor
        · rintro ⟨hlt, hin, hd⟩
          exact ⟨lt_succ_of_lt hlt, hin, (hother hlt).symm ▸ hd⟩
        · rintro ⟨hlt, hin, hd⟩
          obtain hlt | rfl := (hx.lt_succ hins).1 hlt
          · exact ⟨hlt, hin, (hother hlt) ▸ hd⟩
          · have := hin.2 head.loopHeader ((State.kept_cons hs).2 (.inl rfl)) hhead
            omega

lemma visitInstruction (hblock : ins.block = b) :
    answers.Inv graph (b + 1) b (ins.id + 1) (answers.visitInstruction graph s ins) := by
  unfold Answers.visitInstruction
  split_ifs with hnone hrecover hstore
  · obtain ⟨hst, hld⟩ := MInstruction.not_of_isNone hnone
    exact h.skip hins hst hld
  · obtain ⟨hst, hld⟩ := MInstruction.not_of_recovered hrecover
    exact h.skip hins hst hld
  · exact h.visitStore hins ⟨hstore, Bool.eq_false_iff.2 hrecover⟩
  · exact h.visitLoad hins hblock
      ⟨Bool.eq_false_iff.2 hnone, Bool.eq_false_iff.2 hstore, Bool.eq_false_iff.2 hrecover⟩

end VisitInstruction

/-! ## Back edges -/

section VisitBackedge

variable {header : ℕ} {info : LoopAliasInfo} {outer : List LoopAliasInfo}
  (h : answers.Inv graph (b + 1) b (graph.start (b + 1)) s) (hgraph : graph.Reducible)
include h hgraph

/-- The innermost kept loop is the one that ends. -/
lemma exists_head (hloop : graph.IsLoop header b) :
    ∃ info outer, s.loops = info :: outer ∧ info.loopHeader = header := by
  have hle := hgraph.interval header hloop.1 b hloop.2.1 hloop
  have hkept := (h.kept header).2 ⟨lt_succ_of_le hle, b, hloop, le_rfl⟩
  cases hs : s.loops with
  | nil => simp [State.Kept, hs] at hkept
  | cons info outer =>
    refine ⟨info, outer, rfl, le_antisymm ?_ ?_⟩
    · obtain ⟨hlt, u, hloop', hbu⟩ := (h.kept info.loopHeader).1 ((State.kept_cons hs).2 (.inl rfl))
      exact hloop.le_header hgraph hloop' hle le_rfl (Nat.lt_succ_iff.1 hlt) hbu hbu
    · obtain rfl | hmem := (State.kept_cons hs).1 hkept
      · exact le_rfl
      · exact (h.kept_le hs hmem).le

lemma hasAlias_iff (hloop : graph.IsLoop header b) :
    answers.hasAlias graph s header ins = false ↔ answers.AliasFree graph header b ins := by
  have hpos := hgraph.header_pos hloop
  rw [← Bool.not_eq_true]
  simp only [hasAlias, any_eq_true, AliasSet.mem_categories, (h.sorted _).mem_takeWhile]
  constructor
  · rintro hnot st ⟨hst, hstore, ⟨c, hc, hc'⟩, hmay⟩ hle hbu
    refine hnot ⟨c, hc, ⟨st.id, st.block⟩, ⟨?_, hst.le_id.2 hle⟩, hmay⟩
    exact (h.mem_stores c _).2 (.inr ⟨st, hst, hstore, hc', hst.id_lt_start.2 (lt_succ_of_le hbu), rfl⟩)
  · rintro hfree ⟨c, hc, store, ⟨hmem, hle⟩, hmay⟩
    obtain rfl | ⟨st, hst, hstore, hc', hlt, rfl⟩ := (h.mem_stores c store).1 hmem
    · exact absurd (graph.firstInstruction_lt hpos) (not_lt.2 hle)
    · exact hfree st ⟨hst, hstore, ⟨c, hc, hc'⟩, hmay⟩ (hst.le_id.1 hle) (Nat.lt_succ_iff.1 (hst.id_lt_start.1 hlt))

variable (hs : s.loops = info :: outer) (hloop : graph.IsLoop info.loopHeader b)
include hs hloop

/-- The loads that are invariant so far keep their dependency if no store of the loop may alias them. -/
lemma foldl_dependency (hins : graph.Has ins)
    (hor : ins ∉ info.invariantLoads ∨ answers.AliasFree graph info.loopHeader b ins) :
    (info.invariantLoads.foldl (answers.resolveLoad graph info.loopHeader)
      { s with loops := outer }).dependency ins.id = s.dependency ins.id := by
  refine foldl_resolveLoad_of_not fun x hx hid => ?_
  have hx' := ((h.mem_invariantLoads info (hs ▸ mem_cons_self) x).1 hx).1
  obtain rfl := hx'.eq_of_id hins hid
  rw [hasAlias_loops]
  exact (h.hasAlias_iff hgraph hloop).2 (hor.resolve_left (not_not.2 hx))

lemma foldl_dependency_lastIns (hmem : ins ∈ info.invariantLoads)
    (hfree : ¬ answers.AliasFree graph info.loopHeader b ins) :
    (info.invariantLoads.foldl (answers.resolveLoad graph info.loopHeader)
      { s with loops := outer }).dependency ins.id = some (graph.lastIns info.loopHeader) := by
  refine foldl_resolveLoad_of_alias hmem ?_
  rw [hasAlias_loops]
  exact Bool.of_not_eq_false fun hfalse => hfree ((h.hasAlias_iff hgraph hloop).1 hfalse)

/-- The loads that are handed to the next loop. -/
lemma foldl_loops {next : LoopAliasInfo} {rest : List LoopAliasInfo} (hnext : outer = next :: rest) :
    ∃ new, (info.invariantLoads.foldl (answers.resolveLoad graph info.loopHeader)
        { s with loops := outer }).loops = ⟨next.loopHeader, next.invariantLoads ++ new⟩ :: rest ∧
      ∀ x, x ∈ new ↔ x ∈ info.invariantLoads ∧ answers.AliasFree graph info.loopHeader b x ∧
        ∃ dep, s.dependency x.id = some dep ∧ dep < graph.firstInstruction next.loopHeader := by
  have hmem (x : MInstruction) := h.mem_invariantLoads info (hs ▸ mem_cons_self) x
  obtain ⟨new, hloops, hnew⟩ := foldl_resolveLoad_cons answers graph info.loopHeader
    (s := { s with loops := outer }) hnext (fun x hx y hy => ((hmem x).1 hx).1.eq_of_id ((hmem y).1 hy).1)
    (fun x hx => by
      obtain ⟨-, -, -, -, dep, hdep, -⟩ := (hmem x).1 hx
      exact ⟨dep, hdep⟩)
  refine ⟨new, hloops, fun x => (hnew x).trans ?_⟩
  rw [hasAlias_loops, h.hasAlias_iff hgraph hloop]

lemma foldl_kept (header : ℕ) : Kept (info.invariantLoads.foldl
    (answers.resolveLoad graph info.loopHeader) { s with loops := outer }) header ↔
      header ∈ outer.map LoopAliasInfo.loopHeader := by
  cases hnext : outer with
  | nil => rw [Kept, foldl_resolveLoad_nil rfl]
  | cons next rest =>
    obtain ⟨new, hloops, -⟩ := h.foldl_loops hgraph hs hloop hnext
    rw [hnext] at hloops
    simp [kept_cons hloops]

/-- What is known of a load does not change, or it comes to depend on the header. -/
lemma foldl_load (hins : graph.Has ins) (hload : ins.IsLoad) (hid : ins.id < graph.start (b + 1)) :
    ∃ dep, (info.invariantLoads.foldl (answers.resolveLoad graph info.loopHeader)
        { s with loops := outer }).dependency ins.id = some dep ∧
      (answers.Open graph (b + 1) ins dep ∨ ∃ h u, u < b + 1 ∧ answers.Fixed graph h u ins dep) := by
  have hmem := h.mem_invariantLoads info (hs ▸ mem_cons_self) ins
  obtain ⟨dep, hdep, hor⟩ := h.load ins hins hload hid
  by_cases hset : ins ∈ info.invariantLoads ∧ ¬ answers.AliasFree graph info.loopHeader b ins
  · obtain ⟨-, -, -, ⟨hle, -⟩, dep', hdep', hlt⟩ := hmem.1 hset.1
    cases hdep.symm.trans hdep'
    have hblock : ins.block ≤ b := Nat.lt_succ_iff.1 (hins.id_lt_start.1 hid)
    refine ⟨_, h.foldl_dependency_lastIns hgraph hs hloop hset.1 hset.2, .inr ?_⟩
    refine ⟨info.loopHeader, b, lt_succ_self b, ⟨hloop, hle, hblock⟩, rfl, dep, hlt, ?_⟩
    refine hor.resolve_right fun ⟨h', u', hu', hfixed⟩ => ?_
    -- a load that depends on an inner header is not kept
    obtain ⟨hloop', hle', hu⟩ := hfixed.inLoop
    have hinner := hloop'.le_header hgraph hloop hle' hu hle hblock hu'.le
    have hmono := graph.firstInstruction_strictMono.monotone hinner
    have hlast := graph.firstInstruction_le_lastIns h'
    have heq := hfixed.eq
    omega
  · have hcase : ins ∉ info.invariantLoads ∨ answers.AliasFree graph info.loopHeader b ins := by
      by_cases hin : ins ∈ info.invariantLoads
      · exact .inr (not_not.1 fun hfree => hset ⟨hin, hfree⟩)
      · exact .inl hin
    refine ⟨dep, (h.foldl_dependency hgraph hs hloop hins hcase).trans hdep, ?_⟩
    obtain ⟨hinit, hfree⟩ | ⟨h', u', hu', hfixed⟩ := hor
    · refine .inl ⟨hinit, fun h' u' hin' hu' hlt => ?_⟩
      obtain hu' | rfl := Nat.lt_succ_iff_lt_or_eq.1 hu'
      · exact hfree h' u' hin' hu' hlt
      · obtain ⟨hloop', hle', -⟩ := hin'
        obtain rfl := hloop'.header_eq hloop
        refine hcase.resolve_left (not_not.2 (hmem.2 ⟨hins, hload, hid, ⟨hle', ?_⟩, dep, hdep, hlt⟩))
        intro h' hh' _
        obtain rfl | hh' := (State.kept_cons hs).1 hh'
        · exact le_rfl
        · exact (h.kept_le hs hh').le
    · exact .inr ⟨h', u', lt_succ_of_lt hu', hfixed⟩

/-- The loads of the loops that are still kept. -/
lemma foldl_mem (x : MInstruction) {kept : LoopAliasInfo}
    (hkept : kept ∈ (info.invariantLoads.foldl (answers.resolveLoad graph info.loopHeader)
      { s with loops := outer }).loops) : x ∈ kept.invariantLoads ↔
    graph.Has x ∧ x.IsLoad ∧ x.id < graph.start (b + 1) ∧
      (info.invariantLoads.foldl (answers.resolveLoad graph info.loopHeader)
        { s with loops := outer }).Innermost x kept.loopHeader ∧
      ∃ dep, (info.invariantLoads.foldl (answers.resolveLoad graph info.loopHeader)
        { s with loops := outer }).dependency x.id = some dep ∧ dep < graph.firstInstruction kept.loopHeader := by
  have hmem := h.mem_invariantLoads info (hs ▸ mem_cons_self) x
  -- the loads before the loop that ends are not changed
  have hbefore (hx : graph.Has x) (hlt : x.block < info.loopHeader) :=
    h.foldl_dependency hgraph hs hloop hx (.inl fun hin => absurd (hmem.1 hin).2.2.2.1.1 (not_le.2 hlt))
  have hinner (header : ℕ) (hlt : x.block < info.loopHeader) :
      s.Innermost x header ↔ (info.invariantLoads.foldl (answers.resolveLoad graph info.loopHeader)
        { s with loops := outer }).Innermost x header := by
    simp only [Innermost, h.foldl_kept hgraph hs hloop, kept_cons hs]
    refine and_congr_right fun _ => forall_congr' fun h' => ⟨fun hall hh' => hall (.inr hh'), ?_⟩
    rintro hall (rfl | hh') hle
    · omega
    · exact hall hh' hle
  cases hnext : outer with
  | nil =>
    rw [hnext, foldl_resolveLoad_nil rfl] at hkept
    cases hkept
  | cons next rest =>
    obtain ⟨new, hloops, hnew⟩ := h.foldl_loops hgraph hs hloop hnext
    have hlt : next.loopHeader < info.loopHeader := h.kept_le hs (by rw [hnext]; exact mem_cons_self)
    have hlast := graph.firstInstruction_lt hlt
    have hle := graph.firstInstruction_le_lastIns info.loopHeader
    rw [← hnext]
    rw [hloops] at hkept
    obtain rfl | hrest := mem_cons.1 hkept
    · have hold := h.mem_invariantLoads next (hs ▸ hnext ▸ mem_cons_of_mem _ mem_cons_self) x
      rw [mem_append, hnew]
      by_cases hblock : x.block < info.loopHeader
      · rw [hold, or_iff_left fun hin => absurd (hmem.1 hin.1).2.2.2.1.1 (not_le.2 hblock)]
        refine and_congr_right fun hx => ?_
        rw [hbefore hx hblock, hinner _ hblock]
      · have hnot : x ∉ next.invariantLoads := fun hin => by
          have := (hold.1 hin).2.2.2.1.2 info.loopHeader ((kept_cons hs).2 (.inl rfl)) (not_lt.1 hblock)
          omega
        rw [or_iff_right hnot]
        constructor
        · rintro ⟨hin, hfree, dep, hdep, hdlt⟩
          obtain ⟨hx, hxl, hid, -⟩ := hmem.1 hin
          refine ⟨hx, hxl, hid, ⟨by dsimp only; omega, fun h' hh' _ => ?_⟩, dep, ?_, hdlt⟩
          · rw [h.foldl_kept hgraph hs hloop, hnext] at hh'
            obtain rfl | hh' := mem_cons.1 hh'
            · exact le_rfl
            · have hsort := h.headers
              rw [hs, hnext, map_cons, map_cons, pairwise_cons, pairwise_cons] at hsort
              exact (hsort.2.1 h' hh').le
          · rw [h.foldl_dependency hgraph hs hloop hx (.inr hfree), hdep]
        · rintro ⟨hx, hxl, hid, -, dep, hdep, hdlt⟩
          have hmax : s.Innermost x info.loopHeader := by
            refine ⟨not_lt.1 hblock, fun h' hh' _ => ?_⟩
            obtain rfl | hh' := (kept_cons hs).1 hh'
            · exact le_rfl
            · exact (h.kept_le hs hh').le
          by_cases hset : x ∈ info.invariantLoads ∧ ¬ answers.AliasFree graph info.loopHeader b x
          · rw [h.foldl_dependency_lastIns hgraph hs hloop hset.1 hset.2, Option.some.injEq] at hdep
            dsimp only at hdlt
            omega
          · rw [not_and_or, not_not] at hset
            rw [h.foldl_dependency hgraph hs hloop hx hset] at hdep
            have hin := hmem.2 ⟨hx, hxl, hid, hmax, dep, hdep, hdlt.trans hlast⟩
            exact ⟨hin, hset.resolve_left (not_not.2 hin), dep, hdep, hdlt⟩
    · have hmem' : kept ∈ s.loops := hs ▸ hnext ▸ mem_cons_of_mem _ (mem_cons_of_mem _ hrest)
      have hkept' : kept.loopHeader < next.loopHeader := by
        have hsort := h.headers
        rw [hs, hnext, map_cons, map_cons, pairwise_cons, pairwise_cons] at hsort
        exact hsort.2.1 _ (mem_map_of_mem hrest)
      refine (h.mem_invariantLoads kept hmem' x).trans ?_
      refine and_congr_right fun hx => and_congr_right fun _ => and_congr_right fun _ => ?_
      by_cases hblock : x.block < info.loopHeader
      · rw [hbefore hx hblock, hinner _ hblock]
      · -- a load of the loop that ends is in no list of the outer loops but the next
        constructor
        · rintro ⟨hin, -⟩
          have := hin.2 info.loopHeader ((kept_cons hs).2 (.inl rfl)) (not_lt.1 hblock)
          omega
        · rintro ⟨hin, -⟩
          have := hin.2 next.loopHeader
            ((h.foldl_kept hgraph hs hloop _).2 (hnext ▸ mem_cons_self)) (by omega)
          omega

end VisitBackedge

lemma visitBackedge {header : ℕ} (h : answers.Inv graph (b + 1) b (graph.start (b + 1)) s)
    (hgraph : graph.Reducible) (hloop : graph.IsLoop header b) : ∃ s', answers.visitBackedge graph s = some s' ∧
      answers.Inv graph (b + 1) (b + 1) (graph.start (b + 1)) s' := by
  obtain ⟨info, outer, hs, rfl⟩ := h.exists_head hgraph hloop
  refine ⟨_, by rw [Answers.visitBackedge, hs], ?_⟩
  have hkept := h.foldl_kept hgraph hs hloop
  have hstores : (info.invariantLoads.foldl (answers.resolveLoad graph info.loopHeader)
      { s with loops := outer }).stores = s.stores := foldl_resolveLoad_stores
  refine ⟨?_, ?_, ?_, fun h' => ?_, fun x hx hxl hlt => h.foldl_load hgraph hs hloop hx hxl hlt,
    fun kept hmem x => h.foldl_mem hgraph hs hloop x hmem⟩
  · rw [hstores]
    exact h.mem_stores
  · rw [hstores]
    exact h.sorted
  · have hsort := h.headers
    rw [hs, map_cons, pairwise_cons] at hsort
    cases hnext : outer with
    | nil =>
      rw [foldl_resolveLoad_nil rfl]
      exact List.Pairwise.nil
    | cons next rest =>
      obtain ⟨new, hloops, -⟩ := h.foldl_loops hgraph hs hloop hnext
      rw [← hnext, hloops]
      rw [hnext] at hsort
      exact hsort.2
  · rw [hkept]
    have hold := h.kept h'
    rw [State.kept_cons hs] at hold
    constructor
    · intro hh'
      obtain ⟨hlt, u, hloop', hbu⟩ := hold.1 (.inr hh')
      refine ⟨hlt, u, hloop', Nat.lt_of_le_of_ne hbu fun heq => ?_⟩
      subst heq
      exact absurd (hloop'.header_eq hloop) (h.kept_le hs hh').ne
    · rintro ⟨hlt, u, hloop', hbu⟩
      refine (hold.2 ⟨hlt, u, hloop', (lt_of_succ_le hbu).le⟩).resolve_left fun heq => ?_
      subst heq
      have := hloop'.backedge_eq hloop
      omega

/-! ## Blocks -/

lemma foldl_visitInstruction (h : answers.Inv graph (b + 1) b (graph.start b) s) (hb : b < graph.numBlocks) :
    answers.Inv graph (b + 1) b (graph.start (b + 1))
      ((graph.instructions b).foldl (answers.visitInstruction graph) s) := by
  have hlength : (graph.instructions b).length = (graph.block b).instructions.length := length_mapIdx
  suffices hpart : ∀ k ≤ (graph.instructions b).length, answers.Inv graph (b + 1) b (graph.firstInstruction b + k)
        (((graph.instructions b).take k).foldl (answers.visitInstruction graph) s) by
    have hall := hpart _ le_rfl
    rw [take_length] at hall
    refine hall.congr fun ins hins => ?_
    rw [hins.id_lt_start, hlength]
    have hlast : graph.firstInstruction b + (graph.block b).instructions.length = graph.lastIns b := rfl
    rw [hlast]
    have hbounds := hins.bounds
    constructor
    · intro hlt
      exact lt_succ_of_le (hins.inBlock.le_lastIns_iff.1 hlt.le)
    · intro hlt
      obtain hlt | heq := Nat.lt_succ_iff_lt_or_eq.1 hlt
      · exact hins.inBlock.lt (inBlock_lastIns b) hlt
      · exact heq ▸ hbounds.2
  intro k
  induction k with
  | zero =>
    intro _
    refine h.congr fun ins hins => ?_
    rw [hins.id_lt_start, Nat.add_zero, ← not_le, ← not_le, hins.le_id]
  | succ k ih =>
    intro hk
    have hk' : k < (graph.instructions b).length := hk
    rw [take_succ_eq_append_getElem hk', foldl_append, foldl_cons, foldl_nil]
    have hmem : (graph.instructions b)[k] ∈ graph.instructions b := getElem_mem hk'
    have hblock := block_of_mem hmem
    have hid : (graph.instructions b)[k].id = graph.firstInstruction b + k := by
      simp [instructions]
    have hstep := ih hk'.le
    rw [← hid] at hstep
    have hnext := hstep.visitInstruction ⟨hblock.symm ▸ hb, hblock.symm ▸ hmem⟩ hblock
    rw [hid] at hnext
    exact hnext

theorem visitBlock (h : answers.Inv graph b b (graph.start b) s) (hgraph : graph.Reducible)
    (hb : b < graph.numBlocks) : ∃ s', answers.visitBlock graph s b = some s' ∧
      answers.Inv graph (b + 1) (b + 1) (graph.start (b + 1)) s' := by
  have hvisited := (h.enterLoop hgraph hb).foldl_visitInstruction hb
  unfold Answers.visitBlock
  dsimp only
  split_ifs with hback
  · obtain ⟨header, hloop⟩ := exists_isLoop hgraph hb hback
    exact hvisited.visitBackedge hgraph hloop
  · -- no loop ends with this block
    refine ⟨_, rfl, hvisited.mem_stores, hvisited.sorted, hvisited.headers, fun h' => ?_, ?_,
      hvisited.mem_invariantLoads⟩
    · refine (hvisited.kept h').trans (and_congr_right fun _ => exists_congr fun u => ?_)
      refine and_congr_right fun hloop => ⟨fun hbu => ?_, fun hbu => (lt_of_succ_le hbu).le⟩
      exact Nat.lt_of_le_of_ne hbu fun heq => hback (heq ▸ hloop.2.2.1)
    · have hlt {h' u : ℕ} (hloop : graph.IsLoop h' u) (hu : u < b + 1) : u < b :=
        Nat.lt_of_le_of_ne (Nat.lt_succ_iff.1 hu) fun heq => hback (heq ▸ hloop.2.2.1)
      intro ins hins hload hid
      obtain ⟨dep, hdep, ⟨hinit, hfree⟩ | ⟨h', u, hu, hfixed⟩⟩ := hvisited.load ins hins hload hid
      · exact ⟨dep, hdep, .inl ⟨hinit, fun h' u hin hu => hfree h' u hin (hlt hin.1 hu)⟩⟩
      · exact ⟨dep, hdep, .inr ⟨h', u, lt_succ_of_lt hu, hfixed⟩⟩

end Answers.Inv

open Answers in
/-- The analysis comes to an end with all loops resolved. -/
theorem exists_foldlM (answers : Answers) {graph : Graph} (hgraph : graph.Reducible) {n : ℕ}
    (hn : n ≤ graph.numBlocks) : ∃ s, (List.range n).foldlM (answers.visitBlock graph) (initial graph) = some s ∧
      answers.Inv graph n n (graph.start n) s := by
  induction n with
  | zero => exact ⟨_, rfl, Inv.initial⟩
  | succ n ih =>
    obtain ⟨s, hs, hinv⟩ := ih (Nat.le_of_succ_le hn)
    obtain ⟨s', hs', hinv'⟩ := hinv.visitBlock hgraph hn
    refine ⟨s', ?_, hinv'⟩
    rw [range_succ, foldlM_append, hs]
    simpa using hs'

end SpiderMonkey.AliasAnalysis
