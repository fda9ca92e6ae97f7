import SpiderMonkey.Wasm.BulkMemory

/-!
# Bulk operations on tables

The operations on tables and the atomics, and with them the result for all operations (`follows_iff`).
-/

namespace SpiderMonkey.Wasm

open RangeCopy List Option Instance TableElems Table

variable {md : Module} {inst : Instance}

/-! ## Tables -/

def Table.state (table : Table) : TableState := ⟨table.elems, table.maximum⟩

lemma contents_table {i t : ℕ} {table : Table} (h : inst.table i = some (t, table)) :
    inst.contents.table i = some (t, table.state) := by
  obtain ⟨t', htab, hrest⟩ := bind_eq_some_iff.1 h
  obtain ⟨table', hstore, heq⟩ := map_eq_some_iff.1 hrest
  cases heq
  refine bind_eq_some_iff.2 ⟨t, htab, map_eq_some_iff.2 ⟨table.state, ?_, rfl⟩⟩
  exact getElem?_map.trans (congrArg (Option.map state) hstore)

lemma store_getElem? {i t : ℕ} {table : Table} (h : inst.table i = some (t, table)) : inst.store[t]? = some table := by
  obtain ⟨t', htab, hrest⟩ := bind_eq_some_iff.1 h
  obtain ⟨table', hstore, heq⟩ := map_eq_some_iff.1 hrest
  cases heq
  exact hstore

lemma contents_update {t : ℕ} {table : Table} {e : TableElems} {h : e.length = table.elems.length} :
    contents { inst with store := inst.store.set t (table.update e h) } =
      (inst.contents.withTable t table.maximum (some e)).2 := by
  simp only [contents, map_set]
  rfl

lemma withTable_self {t : ℕ} {table : Table} (h : inst.store[t]? = some table) :
    inst.contents.withTable t table.maximum (some table.elems) = (.ok 0, inst.contents) := by
  have hself : inst.contents.store.set t ⟨table.elems, table.maximum⟩ = inst.contents.store :=
    set_eq_self (getElem?_map.trans (congrArg (Option.map state) h))
  simp only [BulkState.withTable, hself]

lemma withTable_inj {t : ℕ} {table : Table} {e e' : TableElems} (h : inst.store[t]? = some table)
    (heq : inst.contents.withTable t table.maximum (some e') =
      inst.contents.withTable t table.maximum (some e)) : e' = e := by
  have hlt : t < inst.contents.store.length := by
    rw [contents, length_map]
    exact (List.getElem?_eq_some_iff.1 h).1
  have hget := congrArg (fun p => p.2.store[t]?) heq
  simp only [BulkState.withTable, getElem?_set_self hlt] at hget
  exact congrArg TableState.elems (Option.some.inj hget)

/-- The copies change the destination only.  `srcOf` is what the source holds when the destination holds
the given entries. -/
lemma copyLoop_eq {store : List Table} {dst src d s : ℕ} {order : List ℕ} {t : Table}
    {srcOf : TableElems → TableElems} {e : TableElems} (hdst : dst < store.length)
    (hsrc : ∀ t : Table, ∃ st, (store.set dst t)[src]? = some st ∧ st.elems = srcOf t.elems)
    (hloop : TableElems.loop order
      (fun i e => TableElems.copy md.toFuncObjects e (srcOf e) (d + i) (s + i)) t.elems = some e) :
    ∃ h, Instance.copyLoop md dst src d s order (store.set dst t) = some (store.set dst (t.update e h)) := by
  induction order generalizing t with
  | nil =>
    cases hloop
    exact ⟨rfl, rfl⟩
  | cons i order ih =>
    obtain ⟨e₁, he₁, hrest⟩ := bind_eq_some_iff.1 hloop
    obtain ⟨st, hst, hsrc₁⟩ := hsrc t
    have hlen : e₁.length = t.elems.length := TableElems.length_copy he₁
    have hentry : Instance.copyEntry md dst src (d + i) (s + i) (store.set dst t) =
        some (store.set dst (t.update e₁ hlen)) := by
      have hcopy : TableElems.copy md.toFuncObjects t.elems st.elems (d + i) (s + i) = some e₁ := by
        rw [hsrc₁]
        exact he₁
      unfold Instance.copyEntry Table.copy
      rw [getElem?_set_self hdst, bind_some, hst, bind_some, modify_eq_some hcopy, map_some, set_set]
    obtain ⟨h, hih⟩ := @ih (t.update e₁ hlen) hrest
    refine ⟨h.trans hlen, ?_⟩
    rw [Instance.copyLoop, foldlM_cons, hentry]
    exact hih

lemma copyLoop_other {dst src d s : ℕ} {order : List ℕ} {t srcTable : Table} {e : TableElems}
    (hdst : inst.store[dst]? = some t) (hsrc : inst.store[src]? = some srcTable) (hne : dst ≠ src)
    (hloop : loop order (fun i e =>
      copy md.toFuncObjects e srcTable.elems (d + i) (s + i)) t.elems = some e) :
    ∃ h, copyLoop md dst src d s order inst.store = some (inst.store.set dst (t.update e h)) := by
  have hlt := (List.getElem?_eq_some_iff.1 hdst).1
  have hcopy := @copyLoop_eq md inst.store dst src d s order t (fun _ => srcTable.elems) e hlt
    (fun t => ⟨srcTable, by rw [getElem?_set_ne hne, hsrc], rfl⟩) hloop
  rwa [set_eq_self hdst] at hcopy

lemma copyLoop_self {dst d s : ℕ} {order : List ℕ} {t : Table} {e : TableElems} (hdst : inst.store[dst]? = some t)
    (hloop : loop order (fun i e =>
      copy md.toFuncObjects e e (d + i) (s + i)) t.elems = some e) :
    ∃ h, copyLoop md dst dst d s order inst.store = some (inst.store.set dst (t.update e h)) := by
  have hlt := (List.getElem?_eq_some_iff.1 hdst).1
  have hcopy := @copyLoop_eq md inst.store dst dst d s order t id e hlt
    (fun t => ⟨t, getElem?_set_self hlt, rfl⟩) hloop
  rwa [set_eq_self hdst] at hcopy

/-- A run that stores entries follows the semantics exactly if they are those of the transfer. -/
lemma follows_iff_of_update {op : BulkOp} {t : ℕ} {table : Table} {e e' : TableElems}
    {h : e'.length = table.elems.length} (hstore : inst.store[t]? = some table)
    (hrun : inst.run md op = some (.ok 0, { inst with
      store := inst.store.set t (table.update e' h) }))
    (hmeans : ∀ r st', inst.contents.Means md r st' op ↔ (r, st') = inst.contents.withTable t table.maximum (some e)) :
    Follows md inst op ↔ e' = e := by
  rw [follows_iff_of_run hrun, hmeans, contents_update]
  exact ⟨fun heq => withTable_inj hstore heq, fun heq => heq ▸ rfl⟩

lemma follows_of_error {op : BulkOp} {t : ℕ} {maximum : Option ℕ}
    (hrun : inst.run md op = some (.error .outOfBounds, inst))
    (hmeans : ∀ r st', inst.contents.Means md r st' op ↔
      (r, st') = inst.contents.withTable t maximum none) : Follows md inst op :=
  (follows_iff_of_run hrun).2 ((hmeans _ _).2 rfl)

lemma means_tableCopy {d s n : UInt32} {dt sr dst src : ℕ} {dstTable srcTable : Table}
    {elems : Option TableElems} (hsrc : inst.table sr = some (src, srcTable))
    (hdst : inst.table dt = some (dst, dstTable))
    (htr : dstTable.elems.transfer md.toFuncObjects d.toNat srcTable.elems s.toNat n.toNat =
      some elems) (r : Except Trap ℕ) (st' : BulkState) :
    inst.contents.Means md r st' (.tableCopy d s n dt sr) ↔
      (r, st') = inst.contents.withTable dst dstTable.maximum elems := by
  constructor
  · rintro ⟨src', srcState, dst', dstState, elems', hsrc', hdst', htr', heq⟩
    cases (contents_table hsrc).symm.trans hsrc'
    cases (contents_table hdst).symm.trans hdst'
    cases htr.symm.trans htr'
    exact heq
  · exact fun heq => ⟨src, srcTable.state, dst, dstTable.state, elems, contents_table hsrc,
      contents_table hdst, htr, heq⟩

lemma run_tableCopy (md : Module) (d s n : UInt32) {dt sr dst src : ℕ} {dstTable srcTable : Table}
    (hsrc : inst.table sr = some (src, srcTable)) (hdst : inst.table dt = some (dst, dstTable)) :
    inst.run md (.tableCopy d s n dt sr) =
      if d.toNat + n.toNat > dstTable.length ∨ s.toNat + n.toNat > srcTable.length then
        some (.error .outOfBounds, inst)
      else if sr = dt ∧ d > s then
        (copyLoop md dst src d.toNat s.toNat (List.range n.toNat).reverse inst.store).map
          fun store => (.ok 0, { inst with store := store })
      else if sr = dt ∧ d = s then some (.ok 0, inst)
      else (copyLoop md dst src d.toNat s.toNat (List.range n.toNat) inst.store).map
        fun store => (.ok 0, { inst with store := store }) := by
  show inst.tableCopy md d s n dt sr = _
  unfold tableCopy
  rw [hsrc, hdst]
  rfl

/-- The loops of `tableCopy` for one table under two names, or under one. -/
lemma follows_tableCopy_self {d s n : UInt32} {dt sr t : ℕ} {table : Table} {e : TableElems}
    (hsrc : inst.table sr = some (t, table)) (hdst : inst.table dt = some (t, table))
    (hd : d.toNat + n.toNat ≤ table.length) (hs : s.toNat + n.toNat ≤ table.length)
    (htr : table.elems.transfer md.toFuncObjects d.toNat table.elems s.toNat n.toNat = some (some e)) :
    Follows md inst (.tableCopy d s n dt sr) ↔
      (dt ≠ sr → s < d → table.elems.Repeats s.toNat (d.toNat - s.toNat) n.toNat) := by
  have hmeans := means_tableCopy hsrc hdst htr
  have hstore := store_getElem? hdst
  have hin : ¬ (d.toNat + n.toNat > table.length ∨ s.toNat + n.toNat > table.length) := by omega
  by_cases hdown : sr = dt ∧ d > s
  · obtain ⟨_, hloop⟩ := copyLoop_self hstore (loop_copy_reverse hd hs hdown.2 htr)
    have hrun := run_tableCopy md d s n hsrc hdst
    rw [if_neg hin, if_pos hdown, hloop, map_some] at hrun
    rw [follows_iff_of_update hstore hrun hmeans]
    exact iff_of_true rfl fun hne => absurd hdown.1.symm hne
  · by_cases hnoop : sr = dt ∧ d = s
    · have hrun := run_tableCopy md d s n hsrc hdst
      rw [if_neg hin, if_neg hdown, if_pos hnoop] at hrun
      rw [← hnoop.2, transfer_noop hd] at htr
      cases htr
      refine iff_of_true ((follows_iff_of_run hrun).2 ((hmeans _ _).2 ?_)) fun hne =>
        absurd hnoop.1.symm hne
      exact (withTable_self hstore).symm
    · obtain ⟨e', hloop', hiff⟩ := loop_copy_range hd hs htr
      obtain ⟨_, hloop⟩ := copyLoop_self hstore hloop'
      have hrun := run_tableCopy md d s n hsrc hdst
      rw [if_neg hin, if_neg hdown, if_neg hnoop, hloop, map_some] at hrun
      rw [follows_iff_of_update hstore hrun hmeans, hiff]
      constructor
      · exact fun h _ => h
      · exact fun h hlt => h (fun heq => hdown ⟨heq.symm, hlt⟩) hlt

theorem follows_tableCopy_iff {d s n : UInt32} {dt sr : ℕ} (h : Valid inst (.tableCopy d s n dt sr)) :
    Follows md inst (.tableCopy d s n dt sr) ↔ HoldsWhen md inst (.tableCopy d s n dt sr) := by
  obtain ⟨src, srcTable, dst, dstTable, hsrc, hdst, hkind⟩ := h
  by_cases hin : d.toNat + n.toNat ≤ dstTable.length ∧ s.toNat + n.toNat ≤ srcTable.length
  · obtain ⟨e, htr⟩ := @TableElems.transfer_inBounds md.toFuncObjects _ _ _ _ _ hin.1 hin.2 hkind
    by_cases hsame : dst = src
    · subst hsame
      cases (store_getElem? hdst).symm.trans (store_getElem? hsrc)
      rw [follows_tableCopy_self hsrc hdst hin.1 hin.2 htr]
      constructor
      · intro hrep t table hdst' _ hne _ hlt
        cases hdst.symm.trans hdst'
        exact hrep hne hlt
      · exact fun hwhen hne hlt => hwhen dst _ hdst hsrc hne hin.1 hlt
    · have hmeans := means_tableCopy hsrc hdst htr
      have hne : ¬ sr = dt := fun heq => hsame (by
        subst heq
        exact congrArg Prod.fst (Option.some.inj (hdst.symm.trans hsrc)))
      obtain ⟨_, hloop⟩ := copyLoop_other (store_getElem? hdst) (store_getElem? hsrc) hsame
        (TableElems.loop_copy_other hin.1 hin.2 htr)
      have hrun := run_tableCopy md d s n hsrc hdst
      rw [if_neg (by omega), if_neg fun h => hne h.1, if_neg fun h => hne h.1, hloop, map_some] at hrun
      refine iff_of_true ((follows_iff_of_update (store_getElem? hdst) hrun hmeans).2 rfl) ?_
      intro t table hdst' hsrc' _ _ _
      cases hdst.symm.trans hdst'
      cases hsrc.symm.trans hsrc'
      exact absurd rfl hsame
  · have htr := @TableElems.transfer_outOfBounds md.toFuncObjects dstTable.elems srcTable.elems
      d.toNat s.toNat n.toNat (by unfold Table.length at hin; omega) hkind
    have hrun := run_tableCopy md d s n hsrc hdst
    rw [if_pos (by omega)] at hrun
    refine iff_of_true (follows_of_error hrun (means_tableCopy hsrc hdst htr)) ?_
    intro t table hdst' hsrc' _ hd hlt
    cases hdst.symm.trans hdst'
    cases hsrc.symm.trans hsrc'
    have hlt' : s.toNat < d.toNat := hlt
    exact absurd ⟨hd, by omega⟩ hin

lemma means_tableInit {d s n : UInt32} {seg ti t : ℕ} {table : Table} {indices : List ℕ}
    {elems : Option TableElems} (hseg : inst.contents.elemSegments[seg]? = some indices)
    (htable : inst.table ti = some (t, table))
    (htr : table.elems.transfer md.toFuncObjects d.toNat (segmentElems md table.elems indices)
      s.toNat n.toNat = some elems) (r : Except Trap ℕ) (st' : BulkState) :
    inst.contents.Means md r st' (.tableInit d s n seg ti) ↔
      (r, st') = inst.contents.withTable t table.maximum elems := by
  constructor
  · rintro ⟨indices', t', state, elems', hseg', htable', htr', heq⟩
    cases hseg.symm.trans hseg'
    cases (contents_table htable).symm.trans htable'
    cases htr.symm.trans htr'
    exact heq
  · exact fun heq => ⟨indices, t, table.state, elems, hseg, contents_table htable, htr, heq⟩

lemma run_tableInit {d s n : UInt32} {seg ti t : ℕ} {table : Table} {data : ElemSegment}
    (hseg : inst.passiveElemSegments[seg]? = some (some data))
    (htable : inst.table ti = some (t, table)) :
    inst.run md (.tableInit d s n seg ti) =
      if d.toNat + n.toNat > table.length ∨ s.toNat + n.toNat > data.elemFuncIndices.length then
        some (.error .outOfBounds, inst)
      else (table.modify (initElems md data d.toNat s.toNat n.toNat)
        fun _ => length_initElems).map
          fun table => (.ok 0, { inst with store := inst.store.set t table }) := by
  show inst.tableInit md d s n seg ti = _
  unfold tableInit
  rw [hseg, htable]
  rfl

lemma run_tableInit_dropped {d s n : UInt32} {seg ti : ℕ} (hseg : inst.passiveElemSegments[seg]? = some none) :
    inst.run md (.tableInit d s n seg ti) =
      if n = 0 ∧ s = 0 then some (.ok 0, inst) else some (.error .outOfBounds, inst) := by
  show inst.tableInit md d s n seg ti = _
  unfold tableInit
  rw [hseg]

lemma follows_tableInit {d s n : UInt32} {seg ti t : ℕ} {table : Table} {data : ElemSegment}
    (hseg : inst.passiveElemSegments[seg]? = some (some data))
    (htable : inst.table ti = some (t, table)) : Follows md inst (.tableInit d s n seg ti) := by
  have hsource : inst.contents.elemSegments[seg]? = some data.elemFuncIndices := by
    rw [elemSegments_getElem?, hseg]
    rfl
  have hlen := @TableElems.length_segmentElems md table.elems data.elemFuncIndices
  have hkind : table.elems.isFunction = true → (segmentElems md table.elems data.elemFuncIndices).isFunction = true :=
    TableElems.isFunction_segmentElems.trans
  have hrun := @run_tableInit md inst d s n seg ti t table data hseg htable
  by_cases hin : d.toNat + n.toNat ≤ table.length ∧ s.toNat + n.toNat ≤ data.elemFuncIndices.length
  · obtain ⟨e, htr⟩ := @TableElems.transfer_inBounds md.toFuncObjects _ _ _ _ _ hin.1
      (hin.2.trans_eq hlen.symm) hkind
    have hinit := TableElems.initElems_transfer hin.1 hin.2 htr
    rw [if_neg (by omega), modify_eq_some hinit, map_some] at hrun
    exact (follows_iff_of_update (store_getElem? htable) hrun
      (means_tableInit hsource htable htr)).2 rfl
  · have htr := @TableElems.transfer_outOfBounds md.toFuncObjects table.elems _
      d.toNat s.toNat n.toNat (by unfold Table.length at hin; omega) hkind
    rw [if_pos (by omega)] at hrun
    exact follows_of_error hrun (means_tableInit hsource htable htr)

lemma transfer_dropped_elems {dst : TableElems} {d : ℕ} {s n : UInt32} :
    dst.transfer md.toFuncObjects d (segmentElems md dst []) s.toNat n.toNat =
      some (if n = 0 ∧ s = 0 ∧ d ≤ dst.length then some dst else none) := by
  cases dst with
  | func l =>
    rw [segmentElems, TableElems.transfer, map_nil, transfer_dropped, apply_ite (Option.map _)]
    rfl
  | ref l =>
    rw [segmentElems, TableElems.transfer, map_nil, transfer_dropped, apply_ite (Option.map _)]
    rfl

theorem follows_tableInit_iff {d s n : UInt32} {seg ti : ℕ} (h : Valid inst (.tableInit d s n seg ti)) :
    Follows md inst (.tableInit d s n seg ti) ↔ HoldsWhen md inst (.tableInit d s n seg ti) := by
  obtain ⟨hlt, t, table, htable⟩ := h
  have hget := getElem?_eq_getElem hlt
  cases hseg : inst.passiveElemSegments[seg] with
  | some data =>
    rw [hseg] at hget
    exact iff_of_true (follows_tableInit hget htable) fun hnone =>
      absurd (Option.some.inj (hget.symm.trans hnone)) (some_ne_none data)
  | none =>
    rw [hseg] at hget
    have hsource : inst.contents.elemSegments[seg]? = some [] := by
      rw [elemSegments_getElem?, hget]
      rfl
    have hmeans := means_tableInit hsource htable
      (@transfer_dropped_elems md table.elems d.toNat s n)
    have hrun := @run_tableInit_dropped md inst d s n seg ti hget
    split_ifs at hrun with hempty
    · rw [follows_iff_of_run hrun, hmeans]
      constructor
      · intro heq _ _ _ t' table' htable'
        cases htable.symm.trans htable'
        by_contra hgt
        rw [if_neg fun h => hgt h.2.2] at heq
        cases heq
      · intro hd
        rw [if_pos ⟨hempty.1, hempty.2, hd hget hempty.1 hempty.2 t table htable⟩]
        exact (withTable_self (store_getElem? htable)).symm
    · refine iff_of_true ((follows_iff_of_run hrun).2 ((hmeans _ _).2 ?_)) fun _ hn hs =>
        absurd ⟨hn, hs⟩ hempty
      rw [if_neg fun h => hempty ⟨h.1, h.2.1⟩]
      rfl

lemma follows_tableFill {d n : UInt32} {v : AnyRef} {ti : ℕ}
    (h : Valid inst (.tableFill d v n ti)) : Follows md inst (.tableFill d v n ti) := by
  obtain ⟨t, table, htable⟩ := h
  have hlen := @length_repeatElem md.toFuncObjects table.elems n.toNat v
  have hkind : table.elems.isFunction = true → (repeatElem md.toFuncObjects table.elems v n.toNat).isFunction = true :=
    isFunction_repeatElem.trans
  have hrun : inst.run md (.tableFill d v n ti) =
      if d.toNat + n.toNat > table.length then some (.error .outOfBounds, inst)
      else (fillTable md d.toNat n.toNat v table).map
        fun table => (.ok 0, { inst with store := inst.store.set t table }) := by
    show inst.tableFill md d v n ti = _
    unfold tableFill
    rw [htable]
    rfl
  have hmeans : ∀ elems, table.elems.transfer md.toFuncObjects d.toNat
      (repeatElem md.toFuncObjects table.elems v n.toNat) 0 n.toNat = some elems → ∀ r st',
      inst.contents.Means md r st' (.tableFill d v n ti) ↔
        (r, st') = inst.contents.withTable t table.maximum elems := by
    intro elems htr r st'
    constructor
    · rintro ⟨t', state, elems', htable', htr', heq⟩
      cases (contents_table htable).symm.trans htable'
      cases htr.symm.trans htr'
      exact heq
    · exact fun heq => ⟨t, table.state, elems, contents_table htable, htr, heq⟩
  by_cases hin : d.toNat + n.toNat ≤ table.length
  · obtain ⟨e, htr⟩ := @transfer_inBounds md.toFuncObjects _ _ _ _ _ hin
      ((Nat.zero_add _).trans_le hlen.ge) hkind
    rw [if_neg (by omega), fillTable,
      modify_eq_some (fillElems_transfer hin htr), map_some] at hrun
    exact (follows_iff_of_update (store_getElem? htable) hrun (hmeans _ htr)).2 rfl
  · have htr := @transfer_outOfBounds md.toFuncObjects table.elems _
      d.toNat 0 n.toNat (.inl (not_le.1 hin)) hkind
    rw [if_pos (by omega)] at hrun
    exact follows_of_error hrun (hmeans _ htr)

lemma follows_tableGrow {v : AnyRef} {delta : UInt32} {ti : ℕ} {ok : Bool}
    (h : Valid inst (.tableGrow v delta ti ok)) : Follows md inst (.tableGrow v delta ti ok) := by
  obtain ⟨t, table, htable⟩ := h
  have hstore := store_getElem? htable
  have hrun : inst.run md (.tableGrow v delta ti ok) =
      if (table.grow delta.toNat ok).1 ≠ growFailed ∧ v ≠ none then
        (Instance.fillTable md (table.grow delta.toNat ok).1 delta.toNat v
          (table.grow delta.toNat ok).2).map fun grown =>
            (.ok (table.grow delta.toNat ok).1, { inst with store := inst.store.set t grown })
      else some (.ok (table.grow delta.toNat ok).1,
        { inst with store := inst.store.set t (table.grow delta.toNat ok).2 }) := by
    show inst.tableGrow md v delta ti ok = _
    unfold Instance.tableGrow
    rw [htable]
    rfl
  by_cases hgrow : CanGrow table.elems table.maximum delta.toNat ok
  · obtain ⟨grown, hgrown, helems, hmaximum⟩ := grow_of_canGrow hgrow
    have hne : table.length ≠ growFailed := (lt_of_le_of_lt table.length_le (by decide)).ne
    -- what is stored in the end
    have hdone : ∀ final : Table, final.state = ⟨table.elems.append
        (repeatElem md.toFuncObjects table.elems v delta.toNat), table.maximum⟩ →
        inst.run md (.tableGrow v delta ti ok) =
          some (.ok table.length, { inst with store := inst.store.set t final }) →
        Follows md inst (.tableGrow v delta ti ok) := by
      intro final hfinal hrun
      refine (follows_iff_of_run hrun).2
        ⟨t, table.state, contents_table htable, .inl ⟨hgrow, rfl, ?_⟩⟩
      simp only [Instance.contents, map_set]
      exact congrArg (fun s => BulkState.mk _ _ _ _ (List.set _ t s)) hfinal
    simp only [hgrown] at hrun
    by_cases hv : v = none
    · subst hv
      rw [if_neg fun h => h.2 rfl] at hrun
      refine hdone grown ?_ hrun
      rw [state, helems, hmaximum, TableElems.resize_eq_append]
    · rw [if_pos ⟨hne, hv⟩] at hrun
      have htr := @TableElems.transfer_resize md.toFuncObjects table.elems delta.toNat v
      rw [← helems] at htr
      have hroom : table.length + delta.toNat ≤ grown.elems.length := by
        rw [helems, TableElems.length_resize, Table.length]
      rw [Instance.fillTable, modify_eq_some (TableElems.fillElems_transfer hroom htr), map_some] at hrun
      refine hdone _ ?_ hrun
      exact congrArg (TableState.mk _) hmaximum
  · rw [grow_of_not_canGrow hgrow, if_neg fun h => h.1 rfl] at hrun
    refine (follows_iff_of_run hrun).2
      ⟨t, table.state, contents_table htable, .inr ⟨hgrow, rfl, ?_⟩⟩
    rw [set_eq_self hstore]

/-! ## Atomics -/

lemma PerformWait_snd {size : ℕ} {a : UInt32} : (PerformWait md size inst a).2 = inst := by
  unfold PerformWait
  split_ifs <;> rfl

lemma PerformWait_ok_iff {size : ℕ} {a : UInt32} :
    (∃ b, (PerformWait md size inst a).1 = .ok b) ↔ inst.memory.shared = true ∧
      a.toNat &&& (size - 1) = 0 ∧ (a.toNat + size) % 2 ^ md.sizeT.bits ≤ inst.memory.length := by
  unfold PerformWait
  by_cases hshared : inst.memory.shared = false
  · simp [hshared]
  · by_cases halign : a.toNat &&& (size - 1) ≠ 0
    · simp [hshared, halign]
    · by_cases hgt : (a.toNat + size) % 2 ^ md.sizeT.bits > inst.memory.length
      · simp [hshared, halign, hgt]
      · rw [if_neg hshared, if_neg halign, if_neg hgt]
        exact iff_of_true ⟨_, rfl⟩
          ⟨Bool.eq_true_of_not_eq_false hshared, not_not.1 halign, not_lt.1 hgt⟩

lemma follows_wait_iff {size : ℕ} {a : UInt32} {op : BulkOp} (hsize : size = 4 ∨ size = 8)
    (hrun : inst.run md op = some (PerformWait md size inst a))
    (hmeans : ∀ r st', inst.contents.Means md r st' op ↔
      st' = inst.contents ∧ ((∃ b, r = .ok b) → a.toNat + size ≤ inst.memory.length)) :
    Follows md inst op ↔ ¬ WaitWraps md inst a size := by
  have hlt : a.toNat < 2 ^ 32 := a.toNat_lt
  have hmem : inst.memory.length < 2 ^ 31 := lt_of_le_of_lt inst.memory.length_le (by decide)
  have halign : a.toNat &&& (size - 1) = a.toNat % size := by
    rcases hsize with rfl | rfl
    · exact Nat.and_two_pow_sub_one_eq_mod _ 2
    · exact Nat.and_two_pow_sub_one_eq_mod _ 3
  rw [follows_iff_of_run hrun, hmeans, PerformWait_snd, PerformWait_ok_iff, halign, WaitWraps]
  cases hbits : md.sizeT with
  | bits32 =>
    have hmod : (a.toNat + size) % 2 ^ SizeT.bits32.bits = (a.toNat + size) % 2 ^ 32 := rfl
    rw [hmod]
    constructor
    · rintro ⟨_, hle⟩ ⟨_, hshared, hend⟩
      have haligned : a.toNat % size = 0 := by
        rcases hsize with rfl | rfl
        · omega
        · omega
      have hin := hle ⟨hshared, haligned, by rw [hend, Nat.mod_self]; exact Nat.zero_le _⟩
      omega
    · refine fun hwraps => ⟨rfl, fun ⟨hshared, haligned, hle⟩ => ?_⟩
      have hne : a.toNat + size ≠ 2 ^ 32 := fun hend => hwraps ⟨rfl, hshared, hend⟩
      -- an aligned cell does not straddle the end of the address space
      rcases hsize with rfl | rfl
      · omega
      · omega
  | bits64 =>
    have hmod : (a.toNat + size) % 2 ^ SizeT.bits64.bits = a.toNat + size :=
      Nat.mod_eq_of_lt (by show _ < 2 ^ 64; omega)
    simp [hmod]

lemma follows_wake {a : UInt32} : Follows md inst (.wake a) := by
  have hmod : a.toNat &&& 3 = a.toNat % 4 := Nat.and_two_pow_sub_one_eq_mod _ 2
  obtain ⟨pages, hpages⟩ := inst.memory.dvd_length
  have hlen : inst.memory.length = 65536 * pages := hpages
  have hrun : inst.run md (.wake a) = some (inst.wake a) := rfl
  have hsnd : (inst.wake a).2 = inst := by
    unfold wake
    split_ifs <;> rfl
  refine (follows_iff_of_run hrun).2 ⟨congrArg _ hsnd, ?_⟩
  rintro ⟨b, hb⟩
  show a.toNat + 4 ≤ inst.memory.length
  unfold wake at hb
  split_ifs at hb
  · omega
  · omega

/-! ## The operations follow the semantics -/

/-- The operations of an instance follow the bulk memory semantics exactly where no defect is met. -/
theorem follows_iff (md : Module) (inst : Instance) (op : BulkOp) (h : Valid inst op) :
    Follows md inst op ↔ HoldsWhen md inst op := by
  cases op with
  | memCopy d s n => exact iff_of_true follows_memCopy trivial
  | memFill d v n => exact iff_of_true follows_memFill trivial
  | memInit d s n seg => exact follows_memInit_iff h
  | dataDrop seg => exact iff_of_true (follows_dataDrop h) trivial
  | tableCopy d s n dt st => exact follows_tableCopy_iff h
  | elemDrop seg => exact iff_of_true (follows_elemDrop h) trivial
  | tableInit d s n seg ti => exact follows_tableInit_iff h
  | tableFill d v n ti => exact iff_of_true (follows_tableFill h) trivial
  | tableGrow v delta ti ok => exact iff_of_true (follows_tableGrow h) trivial
  | wait_i32 a => exact follows_wait_iff (.inl rfl) rfl fun _ _ => Iff.rfl
  | wait_i64 a => exact follows_wait_iff (.inr rfl) rfl fun _ _ => Iff.rfl
  | wake a => exact iff_of_true follows_wake trivial

/-- A machine with addresses of 32 bits. -/
def module32 : Module where
  sizeT := .bits32
  getExportedFunction code _ := code
  funcCheckedCallEntry fn := ⟨fn, 0⟩
  funcImports := []
  codeRange i := ⟨i, 0⟩
  refFunc i := i

/-- One table under two indices, an empty shared memory and dropped segments. -/
def aliasedInstance : Instance where
  memory := ⟨[], true, Nat.zero_le _, dvd_zero _⟩
  passiveDataSegments := [none]
  passiveElemSegments := [none]
  tables := [0, 0]
  store := [⟨.ref [some 1, some 2, some 3], none, by decide, by decide⟩]

theorem follows_iff_aliased : Follows module32 aliasedInstance (.tableCopy 1 0 2 1 0) ↔
    HoldsWhen module32 aliasedInstance (.tableCopy 1 0 2 1 0) :=
  follows_iff module32 aliasedInstance _ ⟨_, _, _, _, rfl, rfl, id⟩

/-- The defects: a copy upwards between two names of a table, empty ranges of dropped segments beyond
the end, and a wait on the last cell of the address space. -/
theorem not_follows_aliased : ¬ Follows module32 aliasedInstance (.tableCopy 1 0 2 1 0) ∧
    ¬ Follows module32 aliasedInstance (.memInit 1 0 0 0) ∧
    ¬ Follows module32 aliasedInstance (.tableInit 4 0 0 0 0) ∧
    ¬ Follows module32 aliasedInstance (.wait_i32 4294967292) := by
  refine ⟨?_, ?_, ?_, ?_⟩
  · rw [follows_tableCopy_iff ⟨_, _, _, _, rfl, rfl, id⟩]
    intro h
    cases h 0 _ rfl rfl (by decide) (by decide) (by decide) 1 (by decide)
  · rw [follows_memInit_iff (show Valid aliasedInstance (.memInit 1 0 0 0) from Nat.zero_lt_one)]
    intro h
    cases h rfl rfl rfl
  · rw [follows_tableInit_iff ⟨Nat.zero_lt_one, _, _, rfl⟩]
    intro h
    exact absurd (h rfl rfl rfl _ _ rfl) (by decide)
  · rw [follows_wait_iff (.inl rfl) rfl fun _ _ => Iff.rfl]
    exact fun h => h ⟨rfl, rfl, rfl⟩

end SpiderMonkey.Wasm
