import SpiderMonkey.Wasm.TableTransfer

/-!
# Bulk memory semantics

What the bulk operations are for: an object is a list, a segment is a list that dropping empties, and an
operation transfers a range of one list to a range of another, or traps and changes nothing.  The
operations of an instance follow this semantics except in four cases (`follows_iff`).
-/

namespace SpiderMonkey.Wasm

open RangeCopy List

/-- The operations with their operands. -/
inductive BulkOp
  | memCopy (dstByteOffset srcByteOffset len : UInt32)
  | memFill (byteOffset value len : UInt32)
  | memInit (dstOffset srcOffset len : UInt32) (segIndex : ℕ)
  | dataDrop (segIndex : ℕ)
  | tableCopy (dstOffset srcOffset len : UInt32) (dstTableIndex srcTableIndex : ℕ)
  | elemDrop (segIndex : ℕ)
  | tableInit (dstOffset srcOffset len : UInt32) (segIndex tableIndex : ℕ)
  | tableFill (start : UInt32) (value : AnyRef) (len : UInt32) (tableIndex : ℕ)
  | tableGrow (initValue : AnyRef) (delta : UInt32) (tableIndex : ℕ) (reallocOk : Bool)
  | wait_i32 (byteOffset : UInt32)
  | wait_i64 (byteOffset : UInt32)
  | wake (byteOffset : UInt32)

variable (md : Module)

variable (inst : Instance)

/-- What the instance does. -/
def Instance.run : BulkOp → Option (Except Trap ℕ × Instance)
  | .memCopy d s n =>
    some (if inst.memory.shared then inst.memCopyShared d s n else inst.memCopy d s n)
  | .memFill d v n =>
    some (if inst.memory.shared then inst.memFillShared d v n else inst.memFill d v n)
  | .memInit d s n seg => inst.memInit d s n seg
  | .dataDrop seg => inst.dataDrop seg
  | .tableCopy d s n dt st => inst.tableCopy md d s n dt st
  | .elemDrop seg => inst.elemDrop seg
  | .tableInit d s n seg t => inst.tableInit md d s n seg t
  | .tableFill d v n t => inst.tableFill md d v n t
  | .tableGrow v delta t ok => inst.tableGrow md v delta t ok
  | .wait_i32 a => some (inst.wait_i32 md a)
  | .wait_i64 a => some (inst.wait_i64 md a)
  | .wake a => some (inst.wake a)

/-! ## The semantics -/

structure TableState where
  elems : TableElems
  maximum : Option ℕ

structure BulkState where
  memory : List UInt8
  dataSegments : List (List UInt8)
  elemSegments : List (List ℕ)
  tables : List ℕ
  store : List TableState

/-- What an instance holds; a dropped segment is empty. -/
def Instance.contents : BulkState where
  memory := inst.memory.bytes
  dataSegments := inst.passiveDataSegments.map fun seg => (seg.map DataSegment.bytes).getD []
  elemSegments := inst.passiveElemSegments.map fun seg => (seg.map ElemSegment.elemFuncIndices).getD []
  tables := inst.tables
  store := inst.store.map fun t => ⟨t.elems, t.maximum⟩

namespace BulkState

variable (st : BulkState)

def withMemory : Option (List UInt8) → Except Trap ℕ × BulkState
  | some bytes => (.ok 0, { st with memory := bytes })
  | none => (.error .outOfBounds, st)

def withTable (t : ℕ) (maximum : Option ℕ) : Option TableElems → Except Trap ℕ × BulkState
  | some elems => (.ok 0, { st with store := st.store.set t ⟨elems, maximum⟩ })
  | none => (.error .outOfBounds, st)

/-- The table that an index names, with its place in the store. -/
def table (tableIndex : ℕ) : Option (ℕ × TableState) :=
  st.tables[tableIndex]?.bind fun t => st.store[t]?.map fun table => (t, table)

/-- What the operations mean: the result and the contents afterwards. -/
def Means (r : Except Trap ℕ) (st' : BulkState) : BulkOp → Prop
  | .memCopy d s n =>
    (r, st') = st.withMemory (transfer st.memory d.toNat st.memory s.toNat n.toNat)
  | .memFill d v n => (r, st') = st.withMemory
      (transfer st.memory d.toNat (List.replicate n.toNat (UInt8.ofNat v.toNat)) 0 n.toNat)
  | .memInit d s n seg => ∃ bytes, st.dataSegments[seg]? = some bytes ∧
      (r, st') = st.withMemory (transfer st.memory d.toNat bytes s.toNat n.toNat)
  | .dataDrop seg => (r, st') = (.ok 0, { st with dataSegments := st.dataSegments.set seg [] })
  | .tableCopy d s n dt sr => ∃ src srcTable dst dstTable elems,
      st.table sr = some (src, srcTable) ∧ st.table dt = some (dst, dstTable) ∧
      dstTable.elems.transfer md.toFuncObjects d.toNat srcTable.elems s.toNat n.toNat = some elems ∧
      (r, st') = st.withTable dst dstTable.maximum elems
  | .elemDrop seg => (r, st') = (.ok 0, { st with elemSegments := st.elemSegments.set seg [] })
  | .tableInit d s n seg ti => ∃ indices t table elems,
      st.elemSegments[seg]? = some indices ∧ st.table ti = some (t, table) ∧
      table.elems.transfer md.toFuncObjects d.toNat (segmentElems md table.elems indices) s.toNat
        n.toNat = some elems ∧
      (r, st') = st.withTable t table.maximum elems
  | .tableFill d v n ti => ∃ t table elems, st.table ti = some (t, table) ∧
      table.elems.transfer md.toFuncObjects d.toNat
        (repeatElem md.toFuncObjects table.elems v n.toNat) 0 n.toNat = some elems ∧
      (r, st') = st.withTable t table.maximum elems
  | .tableGrow v delta ti reallocOk => ∃ t table, st.table ti = some (t, table) ∧
      (CanGrow table.elems table.maximum delta.toNat reallocOk ∧ r = .ok table.elems.length ∧
        st' = { st with store := st.store.set t { table with
          elems := table.elems.append (repeatElem md.toFuncObjects table.elems v delta.toNat) } } ∨
      ¬ CanGrow table.elems table.maximum delta.toNat reallocOk ∧ r = .ok Table.growFailed ∧ st' = st)
  -- an address that is accepted is that of a cell inside the memory
  | .wait_i32 a => st' = st ∧ ((∃ b, r = .ok b) → a.toNat + 4 ≤ st.memory.length)
  | .wait_i64 a => st' = st ∧ ((∃ b, r = .ok b) → a.toNat + 8 ≤ st.memory.length)
  | .wake a => st' = st ∧ ((∃ b, r = .ok b) → a.toNat + 4 ≤ st.memory.length)

end BulkState

/-- The instance does what the semantics says. -/
def Follows (op : BulkOp) : Prop :=
  ∃ r inst', inst.run md op = some (r, inst') ∧ inst.contents.Means md r inst'.contents op

/-- What validation promises: the indices are in range, and a table of functions is not filled from a
table of objects. -/
def Valid : BulkOp → Prop
  | .memInit _ _ _ seg | .dataDrop seg => seg < inst.passiveDataSegments.length
  | .elemDrop seg => seg < inst.passiveElemSegments.length
  | .tableCopy _ _ _ dt st => ∃ src srcTable dst dstTable,
      inst.table st = some (src, srcTable) ∧ inst.table dt = some (dst, dstTable) ∧
      (dstTable.elems.isFunction = true → srcTable.elems.isFunction = true)
  | .tableInit _ _ _ seg ti => seg < inst.passiveElemSegments.length ∧ ∃ t table, inst.table ti = some (t, table)
  | .tableFill _ _ _ ti | .tableGrow _ _ ti _ => ∃ t table, inst.table ti = some (t, table)
  | _ => True

/-- The cell of a wait ends exactly where the addresses end, which a `size_t` of 32 bits takes for the
start of the memory. -/
def WaitWraps (a : UInt32) (size : ℕ) : Prop :=
  md.sizeT = .bits32 ∧ inst.memory.shared = true ∧ a.toNat + size = 2 ^ 32

/-- Where an instance follows the semantics.  It does not for an empty range of a dropped segment that
goes beyond the end of the destination, for a copy upwards within a table that two indices name, and for
a wait on the last cell of the address space. -/
def HoldsWhen : BulkOp → Prop
  | .memInit d s n seg => inst.passiveDataSegments[seg]? = some none → n = 0 → s = 0 → d.toNat ≤ inst.memory.length
  | .tableInit d s n seg ti => inst.passiveElemSegments[seg]? = some none → n = 0 → s = 0 →
      ∀ t table, inst.table ti = some (t, table) → d.toNat ≤ table.length
  | .tableCopy d s n dt st => ∀ t table, inst.table dt = some (t, table) →
      inst.table st = some (t, table) → dt ≠ st → d.toNat + n.toNat ≤ table.length → s < d →
      table.elems.Repeats s.toNat (d.toNat - s.toNat) n.toNat
  | .wait_i32 a => ¬ WaitWraps md inst a 4
  | .wait_i64 a => ¬ WaitWraps md inst a 8
  | _ => True

variable {md : Module} {inst : Instance}

/-! ## Memory -/

lemma Memory.bytes_memmove {m : Memory} {d s n : ℕ} (hd : d + n ≤ m.length) (hs : s + n ≤ m.length) :
    (m.memmove d s n).bytes = blit m.bytes d (slice m.bytes s n) :=
  writeInOrder_eq_blit_slice hd hs fun _ hi =>
    getElem?_eq_some_getD 0 ((Nat.add_lt_add_left hi s).trans_le hs)

lemma Memory.bytes_memset {m : Memory} {d n : ℕ} {value : UInt8} (hd : d + n ≤ m.length) :
    (m.memset d value n).bytes = blit m.bytes d (slice (List.replicate n value) 0 n) :=
  writeInOrder_const hd

lemma Memory.bytes_memcpy {m : Memory} {d s n : ℕ} {src : List UInt8} (hd : d + n ≤ m.length)
    (hs : s + n ≤ src.length) :
    (m.memcpy d src s n).bytes = blit m.bytes d (slice src s n) :=
  writeInOrder_eq_blit_slice hd hs fun _ hi =>
    getElem?_eq_some_getD 0 ((Nat.add_lt_add_left hi s).trans_le hs)

lemma WasmMemoryCopy_eq {d s n : UInt32} : (inst.WasmMemoryCopy d s n Memory.memmove).map id Instance.contents =
      inst.contents.withMemory
        (transfer inst.memory.bytes d.toNat inst.memory.bytes s.toNat n.toNat) := by
  by_cases h : d.toNat + n.toNat ≤ inst.memory.length ∧ s.toNat + n.toNat ≤ inst.memory.length
  · have hrun : inst.WasmMemoryCopy d s n Memory.memmove = (.ok 0, { inst with
        memory := inst.memory.memmove d.toNat s.toNat n.toNat }) := if_neg (by omega)
    rw [hrun, transfer_eq_some h.1 h.2, ← Memory.bytes_memmove h.1 h.2]
    rfl
  · have hrun : inst.WasmMemoryCopy d s n Memory.memmove = (.error .outOfBounds, inst) :=
      if_pos (by omega)
    rw [hrun, transfer_eq_none (by unfold Memory.length at h; omega)]
    rfl

lemma WasmMemoryFill_eq {d v n : UInt32} : (inst.WasmMemoryFill d v n Memory.memset).map id Instance.contents =
      inst.contents.withMemory (transfer inst.memory.bytes d.toNat
        (List.replicate n.toNat (UInt8.ofNat v.toNat)) 0 n.toNat) := by
  by_cases h : d.toNat + n.toNat ≤ inst.memory.length
  · have hrun : inst.WasmMemoryFill d v n Memory.memset = (.ok 0, { inst with
        memory := inst.memory.memset d.toNat (UInt8.ofNat v.toNat) n.toNat }) := if_neg (by omega)
    rw [hrun, transfer_eq_some h (by rw [length_replicate, Nat.zero_add]), ← Memory.bytes_memset h]
    rfl
  · have hrun : inst.WasmMemoryFill d v n Memory.memset = (.error .outOfBounds, inst) :=
      if_pos (by omega)
    rw [hrun, transfer_eq_none (.inl (by unfold Memory.length at h; omega))]
    rfl

lemma follows_iff_of_run {op : BulkOp} {p : Except Trap ℕ × Instance} (hrun : inst.run md op = some p) :
    Follows md inst op ↔ inst.contents.Means md p.1 p.2.contents op := by
  constructor
  · rintro ⟨r, inst', heq, hmeans⟩
    cases hrun.symm.trans heq
    exact hmeans
  · exact fun hmeans => ⟨p.1, p.2, hrun, hmeans⟩

lemma follows_memCopy {d s n : UInt32} : Follows md inst (.memCopy d s n) := by
  have hrun : inst.run md (.memCopy d s n) = some (inst.WasmMemoryCopy d s n Memory.memmove) :=
    congrArg some (ite_self _)
  exact (follows_iff_of_run hrun).2 WasmMemoryCopy_eq

lemma follows_memFill {d v n : UInt32} : Follows md inst (.memFill d v n) := by
  have hrun : inst.run md (.memFill d v n) = some (inst.WasmMemoryFill d v n Memory.memset) :=
    congrArg some (ite_self _)
  exact (follows_iff_of_run hrun).2 WasmMemoryFill_eq

lemma eq_zero_iff_toNat {n : UInt32} : n = 0 ↔ n.toNat = 0 := UInt32.toNat_inj.symm

lemma transfer_dropped {α : Type} {l : List α} {d : ℕ} {s n : UInt32} :
    transfer l d [] s.toNat n.toNat = if n = 0 ∧ s = 0 ∧ d ≤ l.length then some l else none := by
  by_cases h : n = 0 ∧ s = 0 ∧ d ≤ l.length
  · obtain ⟨rfl, rfl, hd⟩ := h
    rw [if_pos ⟨rfl, rfl, hd⟩, transfer_eq_some hd le_rfl]
    exact congrArg some blit_nil
  · rw [if_neg h]
    rw [eq_zero_iff_toNat, eq_zero_iff_toNat] at h
    refine transfer_eq_none ?_
    rw [length_nil]
    omega

lemma dataSegments_getElem? {seg : ℕ} : inst.contents.dataSegments[seg]? =
    inst.passiveDataSegments[seg]?.map fun seg => (seg.map DataSegment.bytes).getD [] :=
  getElem?_map

lemma elemSegments_getElem? {seg : ℕ} : inst.contents.elemSegments[seg]? =
    inst.passiveElemSegments[seg]?.map fun seg => (seg.map ElemSegment.elemFuncIndices).getD [] :=
  getElem?_map

lemma memInit_eq {d s n : UInt32} {seg : ℕ} {data : DataSegment}
    (hseg : inst.passiveDataSegments[seg]? = some (some data)) :
    (inst.memInit d s n seg).map (Prod.map id Instance.contents) = some (inst.contents.withMemory
        (transfer inst.memory.bytes d.toNat data.bytes s.toNat n.toNat)) := by
  unfold Instance.memInit
  rw [hseg]
  by_cases h : d.toNat + n.toNat ≤ inst.memory.length ∧ s.toNat + n.toNat ≤ data.bytes.length
  · rw [transfer_eq_some h.1 h.2, ← Memory.bytes_memcpy h.1 h.2]
    exact congrArg (Option.map _) (if_neg (by omega))
  · rw [transfer_eq_none (by unfold Memory.length at h; omega)]
    exact congrArg (Option.map _) (if_pos (by omega))

theorem follows_memInit_iff {d s n : UInt32} {seg : ℕ} (h : Valid inst (.memInit d s n seg)) :
    Follows md inst (.memInit d s n seg) ↔ HoldsWhen md inst (.memInit d s n seg) := by
  have hget := getElem?_eq_getElem h
  cases hseg : inst.passiveDataSegments[seg] with
  | some data =>
    rw [hseg] at hget
    obtain ⟨p, hrun, hmeans⟩ := Option.map_eq_some_iff.1 (memInit_eq hget)
    replace hrun : inst.run md (.memInit d s n seg) = some p := hrun
    refine iff_of_true ((follows_iff_of_run hrun).2 ⟨data.bytes, ?_, hmeans⟩) fun hnone => ?_
    · rw [dataSegments_getElem?, hget]
      rfl
    · exact absurd (Option.some.inj (hget.symm.trans hnone)) (Option.some_ne_none data)
  | none =>
    rw [hseg] at hget
    have hsource : inst.contents.dataSegments[seg]? = some [] := by
      rw [dataSegments_getElem?, hget]
      rfl
    by_cases hempty : n = 0 ∧ s = 0
    · have hrun : inst.run md (.memInit d s n seg) = some (.ok 0, inst) := by
        show inst.memInit d s n seg = _
        unfold Instance.memInit
        rw [hget]
        exact if_pos hempty
      rw [follows_iff_of_run hrun]
      constructor
      · rintro ⟨bytes, hbytes, hmeans⟩ _ _ _
        cases hsource.symm.trans hbytes
        by_contra hlt
        rw [transfer_dropped, if_neg fun h => hlt h.2.2] at hmeans
        cases hmeans
      · intro hd
        refine ⟨[], hsource, ?_⟩
        rw [transfer_dropped, if_pos ⟨hempty.1, hempty.2, hd hget hempty.1 hempty.2⟩]
        rfl
    · have hrun : inst.run md (.memInit d s n seg) = some (.error .outOfBounds, inst) := by
        show inst.memInit d s n seg = _
        unfold Instance.memInit
        rw [hget]
        exact if_neg hempty
      refine iff_of_true ((follows_iff_of_run hrun).2 ⟨[], hsource, ?_⟩) fun _ hn hs =>
        absurd ⟨hn, hs⟩ hempty
      rw [transfer_dropped, if_neg fun h => hempty ⟨h.1, h.2.1⟩]
      rfl

lemma follows_dataDrop {seg : ℕ} (h : Valid inst (.dataDrop seg)) : Follows md inst (.dataDrop seg) := by
  have hget := getElem?_eq_getElem h
  cases hseg : inst.passiveDataSegments[seg] with
  | some data =>
    rw [hseg] at hget
    have hrun : inst.run md (.dataDrop seg) = some (.ok 0, { inst with
        passiveDataSegments := inst.passiveDataSegments.set seg none }) := by
      show inst.dataDrop seg = _
      unfold Instance.dataDrop
      rw [hget]
    refine (follows_iff_of_run hrun).2 ?_
    simp [BulkState.Means, Instance.contents]
  | none =>
    rw [hseg] at hget
    have hrun : inst.run md (.dataDrop seg) = some (.ok 0, inst) := by
      show inst.dataDrop seg = _
      unfold Instance.dataDrop
      rw [hget]
    have hself : inst.contents.dataSegments.set seg [] = inst.contents.dataSegments :=
      set_eq_self (by rw [dataSegments_getElem?, hget]; rfl)
    refine (follows_iff_of_run hrun).2 ?_
    simp only [BulkState.Means, hself]

lemma follows_elemDrop {seg : ℕ} (h : Valid inst (.elemDrop seg)) : Follows md inst (.elemDrop seg) := by
  have hget := getElem?_eq_getElem h
  cases hseg : inst.passiveElemSegments[seg] with
  | some data =>
    rw [hseg] at hget
    have hrun : inst.run md (.elemDrop seg) = some (.ok 0, { inst with
        passiveElemSegments := inst.passiveElemSegments.set seg none }) := by
      show inst.elemDrop seg = _
      unfold Instance.elemDrop
      rw [hget]
    refine (follows_iff_of_run hrun).2 ?_
    simp [BulkState.Means, Instance.contents]
  | none =>
    rw [hseg] at hget
    have hrun : inst.run md (.elemDrop seg) = some (.ok 0, inst) := by
      show inst.elemDrop seg = _
      unfold Instance.elemDrop
      rw [hget]
    have hself : inst.contents.elemSegments.set seg [] = inst.contents.elemSegments :=
      set_eq_self (by rw [elemSegments_getElem?, hget]; rfl)
    refine (follows_iff_of_run hrun).2 ?_
    simp only [BulkState.Means, hself]

end SpiderMonkey.Wasm
