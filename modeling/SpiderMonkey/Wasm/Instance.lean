import SpiderMonkey.Wasm.Table

/-!
# The bulk operations of an instance

The memory, the passive segments and the tables of a `wasm::Instance`, and the operations that read and
write ranges of them.  Operands are 32-bit numbers; the sums that check bounds are computed in 64 bits
and do not wrap, except that of `wait`, which is a `size_t`.

A dropped segment is `none`.  Table indices name tables of the store, so that two of them may name one
table.  `none` as the result of an operation is a failed assertion.
-/

namespace SpiderMonkey.Wasm

open RangeCopy

def PageSize : ℕ := 65536

def MaxMemoryPages : ℕ := (2 ^ 31 - 1) / PageSize

def MaxDataSegmentLengthPages : ℕ := 16384

def MaxElemSegmentLength : ℕ := 10000000

/-- Marks an entry of an element segment that is null. -/
def NullFuncIndex : ℕ := 2 ^ 32 - 1

/-- A linear memory: whole pages.  An instance without memory is given one without pages. -/
structure Memory where
  bytes : List UInt8
  shared : Bool
  length_le : bytes.length ≤ MaxMemoryPages * PageSize
  dvd_length : PageSize ∣ bytes.length

structure DataSegment where
  bytes : List UInt8
  length_le : bytes.length ≤ MaxDataSegmentLengthPages * PageSize

structure ElemSegment where
  elemFuncIndices : List ℕ
  length_le : elemFuncIndices.length ≤ MaxElemSegmentLength

inductive Trap
  | outOfBounds
  | unalignedAccess
  | nonsharedWait
  deriving DecidableEq

/-- The bits of a `size_t`. -/
inductive SizeT
  | bits32
  | bits64
  deriving DecidableEq

def SizeT.bits : SizeT → ℕ
  | bits32 => 32
  | bits64 => 64

/-- The code of the instance and the machine it runs on. -/
structure Module extends FuncObjects where
  sizeT : SizeT
  /-- The imported functions; those that are WebAssembly functions come with their entry. -/
  funcImports : List (Option FuncEntry)
  /-- The checked call entries of the functions of the instance. -/
  codeRange : ℕ → FuncEntry
  /-- The function object of a function of the instance. -/
  refFunc : ℕ → ℕ

structure Instance where
  memory : Memory
  passiveDataSegments : List (Option DataSegment)
  passiveElemSegments : List (Option ElemSegment)
  tables : List ℕ
  store : List Table

namespace Memory

variable {m m' : Memory}

variable (m : Memory)

def length : ℕ := m.bytes.length

/-- Write `f i` at `d + i`, upwards. -/
def write (d : ℕ) (f : ℕ → UInt8) (n : ℕ) : Memory where
  bytes := writeInOrder m.bytes d f (List.range n)
  shared := m.shared
  length_le := length_writeInOrder.trans_le m.length_le
  dvd_length := m.dvd_length.trans (dvd_of_eq length_writeInOrder.symm)

/-- `memmove` within the memory, as if by a copy of the source. -/
def memmove (d s n : ℕ) : Memory :=
  m.write d (fun i => m.bytes.getD (s + i) 0) n

def memset (d : ℕ) (value : UInt8) (n : ℕ) : Memory := m.write d (fun _ => value) n

def memcpy (d : ℕ) (src : List UInt8) (s n : ℕ) : Memory :=
  m.write d (fun i => src.getD (s + i) 0) n

end Memory

namespace Instance

open TableElems

/-! ## Memory -/

variable (md : Module)

variable (inst : Instance)

variable (dstByteOffset srcByteOffset len : UInt32)

def WasmMemoryCopy (memMove : Memory → ℕ → ℕ → ℕ → Memory) : Except Trap ℕ × Instance :=
  let dstOffsetLimit := dstByteOffset.toNat + len.toNat
  let srcOffsetLimit := srcByteOffset.toNat + len.toNat
  if dstOffsetLimit > inst.memory.length ∨ srcOffsetLimit > inst.memory.length then
    (.error .outOfBounds, inst)
  else (.ok 0, { inst with
    memory := memMove inst.memory dstByteOffset.toNat srcByteOffset.toNat len.toNat })

def memCopy : Except Trap ℕ × Instance :=
  inst.WasmMemoryCopy dstByteOffset srcByteOffset len Memory.memmove

/-- Without races `memmoveSafeWhenRacy` is `memmove`. -/
def memCopyShared : Except Trap ℕ × Instance :=
  inst.WasmMemoryCopy dstByteOffset srcByteOffset len Memory.memmove

def dataDrop (segIndex : ℕ) : Option (Except Trap ℕ × Instance) :=
  match inst.passiveDataSegments[segIndex]? with
  | none => none
  | some none => some (.ok 0, inst)
  | some (some _) => some (.ok 0, { inst with
      passiveDataSegments := inst.passiveDataSegments.set segIndex none })

variable (byteOffset value len : UInt32)

def WasmMemoryFill (memSet : Memory → ℕ → UInt8 → ℕ → Memory) : Except Trap ℕ × Instance :=
  let offsetLimit := byteOffset.toNat + len.toNat
  if offsetLimit > inst.memory.length then (.error .outOfBounds, inst)
  else (.ok 0, { inst with
    memory := memSet inst.memory byteOffset.toNat (UInt8.ofNat value.toNat) len.toNat })

def memFill : Except Trap ℕ × Instance :=
  inst.WasmMemoryFill byteOffset value len Memory.memset

/-- Without races `memsetSafeWhenRacy` is `memset`. -/
def memFillShared : Except Trap ℕ × Instance :=
  inst.WasmMemoryFill byteOffset value len Memory.memset

variable (dstOffset srcOffset len : UInt32)

def memInit (segIndex : ℕ) : Option (Except Trap ℕ × Instance) :=
  match inst.passiveDataSegments[segIndex]? with
  | none => none
  | some none =>
    if len = 0 ∧ srcOffset = 0 then some (.ok 0, inst) else some (.error .outOfBounds, inst)
  | some (some seg) =>
    let dstOffsetLimit := dstOffset.toNat + len.toNat
    let srcOffsetLimit := srcOffset.toNat + len.toNat
    if dstOffsetLimit > inst.memory.length ∨ srcOffsetLimit > seg.bytes.length then
      some (.error .outOfBounds, inst)
    else some (.ok 0, { inst with
      memory := inst.memory.memcpy dstOffset.toNat seg.bytes srcOffset.toNat len.toNat })

/-! ## Atomics -/

/-- `PerformWait` for a cell of `size` bytes, up to the call of `atomics_wait_impl`, whose address is the
result. -/
def PerformWait (size : ℕ) (inst : Instance) (byteOffset : UInt32) : Except Trap ℕ × Instance :=
  if inst.memory.shared = false then (.error .nonsharedWait, inst)
  else if byteOffset.toNat &&& (size - 1) ≠ 0 then (.error .unalignedAccess, inst)
  else if (byteOffset.toNat + size) % 2 ^ md.sizeT.bits > inst.memory.length then
    (.error .outOfBounds, inst)
  else (.ok byteOffset.toNat, inst)

def wait_i32 (byteOffset : UInt32) : Except Trap ℕ × Instance :=
  PerformWait md 4 inst byteOffset

def wait_i64 (byteOffset : UInt32) : Except Trap ℕ × Instance :=
  PerformWait md 8 inst byteOffset

/-- `wake` up to the call of `atomics_notify_impl`, whose address is the result.  In a memory that is not
shared nobody waits. -/
def wake (byteOffset : UInt32) : Except Trap ℕ × Instance :=
  if byteOffset.toNat &&& 3 ≠ 0 then (.error .unalignedAccess, inst)
  else if byteOffset.toNat ≥ inst.memory.length then (.error .outOfBounds, inst)
  else if inst.memory.shared = false then (.ok 0, inst)
  else (.ok byteOffset.toNat, inst)

/-! ## Tables -/

/-- The table that an index names, with its place in the store. -/
def table (tableIndex : ℕ) : Option (ℕ × Table) :=
  inst.tables[tableIndex]?.bind fun t => inst.store[t]?.map fun table => (t, table)

/-- `dstTable->copy(*srcTable, ...)`, where the two may be the same table. -/
def copyEntry (dst src dstIndex srcIndex : ℕ) (store : List Table) : Option (List Table) :=
  store[dst]?.bind fun dstTable => store[src]?.bind fun srcTable =>
    (Table.copy md.toFuncObjects dstTable srcTable dstIndex srcIndex).map fun t => store.set dst t

/-- The copies are made in the given order of the loop counter. -/
def copyLoop (dst src dstOffset srcOffset : ℕ) (order : List ℕ) (store : List Table) : Option (List Table) :=
  order.foldlM (fun store i => copyEntry md dst src (dstOffset + i) (srcOffset + i) store) store

/-- `&srcTable == &dstTable` compares the addresses of the two entries of `tables`. -/
def tableCopy (dstTableIndex srcTableIndex : ℕ) : Option (Except Trap ℕ × Instance) :=
  (inst.table srcTableIndex).bind fun (src, srcTable) =>
  (inst.table dstTableIndex).bind fun (dst, dstTable) =>
    let dstOffsetLimit := dstOffset.toNat + len.toNat
    let srcOffsetLimit := srcOffset.toNat + len.toNat
    if dstOffsetLimit > dstTable.length ∨ srcOffsetLimit > srcTable.length then
      some (.error .outOfBounds, inst)
    else if srcTableIndex = dstTableIndex ∧ dstOffset > srcOffset then
      (copyLoop md dst src dstOffset.toNat srcOffset.toNat (List.range len.toNat).reverse
        inst.store).map fun store => (.ok 0, { inst with store := store })
    else if srcTableIndex = dstTableIndex ∧ dstOffset = srcOffset then some (.ok 0, inst)
    else
      (copyLoop md dst src dstOffset.toNat srcOffset.toNat (List.range len.toNat)
        inst.store).map fun store => (.ok 0, { inst with store := store })

def elemDrop (segIndex : ℕ) : Option (Except Trap ℕ × Instance) :=
  match inst.passiveElemSegments[segIndex]? with
  | none => none
  | some none => some (.ok 0, inst)
  | some (some _) => some (.ok 0, { inst with
      passiveElemSegments := inst.passiveElemSegments.set segIndex none })

/-- What `initElems` stores in a table of functions: an imported WebAssembly function keeps its own
instance. -/
def funcEntry (funcIndex : ℕ) : FuncEntry :=
  match md.funcImports[funcIndex]? with
  | some (some imported) => imported
  | _ => md.codeRange funcIndex

def initElem (index funcIndex : ℕ) (e : TableElems) : Option TableElems :=
  if funcIndex = NullFuncIndex then e.setNull index
  else if e.isFunction = false then e.fillAnyRef index 1 (some (md.refFunc funcIndex))
  else e.setFuncRef index (funcEntry md funcIndex)

def initElems (seg : ElemSegment) (dstOffset srcOffset len : ℕ) (e : TableElems) : Option TableElems :=
  loop (List.range len) (fun i e => seg.elemFuncIndices[srcOffset + i]?.bind
    fun funcIndex => initElem md (dstOffset + i) funcIndex e) e

lemma length_initElem {md : Module} {i j : ℕ} {e e' : TableElems}
    (h : initElem md i j e = some e') : e'.length = e.length := by
  unfold initElem at h
  split at h
  · exact length_setNull h
  · split at h
    · exact length_fillAnyRef h
    · exact length_setFuncRef h

lemma length_initElems {md : Module} {seg : ElemSegment} {d s n : ℕ} {e e' : TableElems}
    (h : initElems md seg d s n e = some e') : e'.length = e.length := by
  refine length_loop (fun i e e' he => ?_) h
  obtain ⟨j, _, hj⟩ := Option.bind_eq_some_iff.1 he
  exact length_initElem hj

def tableInit (segIndex tableIndex : ℕ) : Option (Except Trap ℕ × Instance) :=
  match inst.passiveElemSegments[segIndex]? with
  | none => none
  | some none =>
    if len = 0 ∧ srcOffset = 0 then some (.ok 0, inst) else some (.error .outOfBounds, inst)
  | some (some seg) =>
    (inst.table tableIndex).bind fun (t, table) =>
      let dstOffsetLimit := dstOffset.toNat + len.toNat
      let srcOffsetLimit := srcOffset.toNat + len.toNat
      if dstOffsetLimit > table.length ∨ srcOffsetLimit > seg.elemFuncIndices.length then
        some (.error .outOfBounds, inst)
      else
        (table.modify (initElems md seg dstOffset.toNat srcOffset.toNat len.toNat)
          fun _ => length_initElems).map fun table =>
            (.ok 0, { inst with store := inst.store.set t table })

/-- The fill of `tableFill` and `tableGrow`. -/
def fillElems (start len : ℕ) (value : AnyRef) : TableElems → Option TableElems
  | .ref l => (ref l).fillAnyRef start len value
  | .func l => (func l).fillFuncRef md.toFuncObjects start len value

lemma length_fillElems {md : Module} {i n : ℕ} {r : AnyRef} {e e' : TableElems}
    (h : fillElems md i n r e = some e') : e'.length = e.length := by
  cases e with
  | func l => exact length_fillFuncRef h
  | ref l => exact length_fillAnyRef h

def fillTable (start len : ℕ) (value : AnyRef) (table : Table) : Option Table :=
  table.modify (fillElems md start len value) fun _ => length_fillElems

def tableFill (start : UInt32) (value : AnyRef) (len : UInt32) (tableIndex : ℕ) : Option (Except Trap ℕ × Instance) :=
  (inst.table tableIndex).bind fun (t, table) =>
    let offsetLimit := start.toNat + len.toNat
    if offsetLimit > table.length then some (.error .outOfBounds, inst)
    else (fillTable md start.toNat len.toNat value table).map fun table =>
      (.ok 0, { inst with store := inst.store.set t table })

/-- `reallocOk` says whether there is memory for the table. -/
def tableGrow (initValue : AnyRef) (delta : UInt32)
    (tableIndex : ℕ) (reallocOk : Bool) : Option (Except Trap ℕ × Instance) :=
  (inst.table tableIndex).bind fun (t, table) =>
    let (oldSize, grown) := table.grow delta.toNat reallocOk
    if oldSize ≠ Table.growFailed ∧ initValue ≠ none then
      (fillTable md oldSize delta.toNat initValue grown).map fun table =>
        (.ok oldSize, { inst with store := inst.store.set t table })
    else some (.ok oldSize, { inst with store := inst.store.set t grown })

end Instance

end SpiderMonkey.Wasm
