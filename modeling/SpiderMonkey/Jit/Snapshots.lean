import SpiderMonkey.Jit.RValueAllocation

/-!
# Snapshots

Snapshots are written one after the other; their allocations are in a table of their own, where each one is written
once.  Every snapshot is read back from its offset (`SnapshotWriter.snapshots_read_back`).
-/

namespace SpiderMonkey.Jit

open List Option
open LittleEndian (Byte or_shiftLeft)
open Reading

structure Snapshot where
  bailoutKind : ℕ
  recoverOffset : ℕ
  allocations : List RValueAllocation

def SNAPSHOT_BAILOUTKIND_BITS : ℕ := 6
def SNAPSHOT_ROFFSET_SHIFT : ℕ := SNAPSHOT_BAILOUTKIND_BITS
def SNAPSHOT_BAILOUTKIND_MASK : ℕ := 2 ^ SNAPSHOT_BAILOUTKIND_BITS - 1
def SNAPSHOT_ROFFSET_MASK : ℕ := (2 ^ (32 - SNAPSHOT_ROFFSET_SHIFT) - 1) <<< SNAPSHOT_ROFFSET_SHIFT
def MAX_BUFFER_SIZE : ℕ := 2 ^ 30 - 1

/-! ## The writer -/

/-- The map gives the offset of each allocation that has been written. -/
structure SnapshotWriter where
  writer : CompactBufferWriter
  allocWriter : CompactBufferWriter
  allocMap : List (RValueAllocation × ℕ)

/-- The kind and the offset fit into the header, and the allocations may be written. -/
structure Snapshot.Valid (boxing : ValueBoxing) (snapshot : Snapshot) : Prop where
  bailoutKind : snapshot.bailoutKind < 2 ^ 6
  recoverOffset : snapshot.recoverOffset < 2 ^ 26
  allocations : ∀ alloc ∈ snapshot.allocations, alloc.Valid boxing

namespace SnapshotWriter

open RValueAllocation

def empty : SnapshotWriter := ⟨[], [], []⟩

/-- Offsets are numbers with 32 bits. -/
def startSnapshot (sw : SnapshotWriter) (recoverOffset kind : ℕ) : SnapshotWriter × ℕ :=
  let lastStart := sw.writer.length % 2 ^ 32
  let bits := (kind ||| recoverOffset <<< SNAPSHOT_ROFFSET_SHIFT) % 2 ^ 32
  ({ sw with writer := sw.writer.writeUnsigned bits }, lastStart)

/-- An allocation that is not in the map is written to the table. -/
def add (boxing : ValueBoxing) (sw : SnapshotWriter) (alloc : RValueAllocation) : Option SnapshotWriter :=
  match sw.allocMap.lookup alloc with
  | some offset =>
    some { sw with writer := sw.writer.writeUnsigned (offset / ALLOCATION_TABLE_ALIGNMENT) }
  | none =>
    let offset := sw.allocWriter.length % 2 ^ 32
    (alloc.write boxing sw.allocWriter).map fun allocWriter =>
      { writer := sw.writer.writeUnsigned (offset / ALLOCATION_TABLE_ALIGNMENT)
        allocWriter := allocWriter
        allocMap := (alloc, offset) :: sw.allocMap }

def addAll (boxing : ValueBoxing) (sw : SnapshotWriter) : List RValueAllocation → Option SnapshotWriter
  | [] => some sw
  | alloc :: rest => (sw.add boxing alloc).bind fun sw => addAll boxing sw rest

/-- There is a sentinel in debug builds. -/
def endSnapshot (debug : Bool) (sw : SnapshotWriter) : SnapshotWriter :=
  if debug = true then { sw with writer := sw.writer.writeSigned (-1) } else sw

def writeSnapshot (boxing : ValueBoxing) (debug : Bool) (sw : SnapshotWriter) (snapshot : Snapshot) :
    Option (SnapshotWriter × ℕ) :=
  let started := sw.startSnapshot snapshot.recoverOffset snapshot.bailoutKind
  (started.1.addAll boxing snapshot.allocations).map fun sw => (sw.endSnapshot debug, started.2)

def writeSnapshots (boxing : ValueBoxing) (debug : Bool) (sw : SnapshotWriter) :
    List Snapshot → Option (SnapshotWriter × List ℕ)
  | [] => some (sw, [])
  | snapshot :: rest =>
    (sw.writeSnapshot boxing debug snapshot).bind fun written =>
      (writeSnapshots boxing debug written.1 rest).map fun p => (p.1, written.2 :: p.2)

/-- The buffers are too large, although there was memory for them. -/
def oom (sw : SnapshotWriter) : Bool :=
  decide (MAX_BUFFER_SIZE ≤ sw.writer.length) || decide (MAX_BUFFER_SIZE ≤ sw.allocWriter.length)

def copy (sw : SnapshotWriter) : List Byte := sw.writer ++ sw.allocWriter

end SnapshotWriter

/-! ## The reader -/

/-- What is left of the list, and the table. -/
structure SnapshotReader where
  reader : List Byte
  allocTable : List Byte
  bailoutKind : ℕ
  recoverOffset : ℕ

namespace SnapshotReader

/-- The header is read. -/
def create (snapshots : List Byte) (offset RVATableSize listSize : ℕ) : Option SnapshotReader :=
  (CompactBufferReader.readUnsigned ((snapshots.take listSize).drop offset)).map fun p =>
    { reader := p.2
      allocTable := (snapshots.drop listSize).take RVATableSize
      bailoutKind := p.1 &&& SNAPSHOT_BAILOUTKIND_MASK
      recoverOffset := (p.1 &&& SNAPSHOT_ROFFSET_MASK) >>> SNAPSHOT_ROFFSET_SHIFT }

def readAllocation (boxing : ValueBoxing) (sr : SnapshotReader) : Option (RValueAllocation × SnapshotReader) :=
  (CompactBufferReader.readUnsigned sr.reader).bind fun p =>
    let offset := p.1 * RValueAllocation.ALLOCATION_TABLE_ALIGNMENT % 2 ^ 32
    (RValueAllocation.read boxing (sr.allocTable.drop offset)).map fun q => (q.1, { sr with reader := p.2 })

def readAllocations (boxing : ValueBoxing) (sr : SnapshotReader) : ℕ → Option (List RValueAllocation)
  | 0 => some []
  | count + 1 => (sr.readAllocation boxing).bind fun p => (readAllocations boxing p.2 count).map fun as => p.1 :: as

/-- The snapshot is read at an offset. -/
def Reads (boxing : ValueBoxing) (sw : SnapshotWriter) (offset : ℕ) (snapshot : Snapshot) : Prop :=
  ∃ sr, create sw.copy offset sw.allocWriter.length sw.writer.length = some sr ∧
    sr.bailoutKind = snapshot.bailoutKind ∧ sr.recoverOffset = snapshot.recoverOffset ∧
    sr.readAllocations boxing snapshot.allocations.length = some snapshot.allocations

end SnapshotReader

namespace SnapshotWriter

open CompactBuffer CompactBufferReader RValueAllocation SnapshotReader

variable {boxing : ValueBoxing} {debug : Bool} {sw sw' : SnapshotWriter}

/-! ## The table -/

/-- The allocation is in the table at this offset. -/
def Stored (boxing : ValueBoxing) (table : List Byte) (offset : ℕ) (alloc : RValueAllocation) : Prop :=
  offset % 2 = 0 ∧ ∃ chunk after, table.drop offset = chunk ++ after ∧ offset ≤ table.length ∧
    Reading.Reads (read boxing) chunk alloc

lemma Stored.append {table : List Byte} {offset : ℕ} {alloc : RValueAllocation} (h : Stored boxing table offset alloc)
    (more : List Byte) : Stored boxing (table ++ more) offset alloc := by
  obtain ⟨heven, chunk, after, hdrop, hle, hreads⟩ := h
  refine ⟨heven, chunk, after ++ more, ?_, ?_, hreads⟩
  · simp [drop_append_of_le_length hle, hdrop]
  · rw [List.length_append]
    omega

/-- The map is right about the table, as long as offsets fit into 32 bits. -/
structure MapOk (boxing : ValueBoxing) (sw : SnapshotWriter) : Prop where
  even : sw.allocWriter.length % 2 = 0
  stored : ∀ alloc offset, sw.allocMap.lookup alloc = some offset → Stored boxing sw.allocWriter offset alloc

/-- More has been written to both buffers. -/
structure Grows (sw sw' : SnapshotWriter) (written : List Byte) : Prop where
  writer : sw'.writer = sw.writer ++ written
  allocWriter : ∃ more, sw'.allocWriter = sw.allocWriter ++ more

lemma Grows.trans {sw'' : SnapshotWriter} {written written' : List Byte} (h : Grows sw sw' written)
    (h' : Grows sw' sw'' written') : Grows sw sw'' (written ++ written') := by
  obtain ⟨more, hmore⟩ := h.allocWriter
  obtain ⟨more', hmore'⟩ := h'.allocWriter
  refine ⟨?_, more ++ more', ?_⟩
  · simp [h'.writer, h.writer]
  · simp [hmore', hmore]

lemma Grows.length_le {written : List Byte} (h : Grows sw sw' written) :
    sw.writer.length ≤ sw'.writer.length ∧ sw.allocWriter.length ≤ sw'.allocWriter.length := by
  obtain ⟨more, hmore⟩ := h.allocWriter
  rw [h.writer, hmore, List.length_append, List.length_append]
  omega

/-- The bytes of an index. -/
def indexBytes (index : ℕ) : List Byte := variableLength index index

lemma add_grows {alloc : RValueAllocation} (hvalid : alloc.Valid boxing) (sw : SnapshotWriter) :
    ∃ sw' written, sw.add boxing alloc = some sw' ∧ Grows sw sw' written := by
  obtain ⟨layout, hlaid⟩ := hvalid.laid
  rw [add]
  cases hlookup : sw.allocMap.lookup alloc with
  | some offset => exact ⟨_, _, rfl, writeUnsigned_eq _ _, [], (append_nil _).symm⟩
  | none =>
    obtain ⟨padding, hpadding, -⟩ := writePadding_eq (sw.allocWriter ++ alloc.bytes layout)
    dsimp only
    rw [hlaid.write_eq, hpadding, append_assoc, map_some]
    exact ⟨_, _, rfl, writeUnsigned_eq _ _, _, rfl⟩

lemma addAll_grows {allocs : List RValueAllocation} (hvalid : ∀ a ∈ allocs, a.Valid boxing) (sw : SnapshotWriter) :
    ∃ sw' written, sw.addAll boxing allocs = some sw' ∧ Grows sw sw' written := by
  induction allocs generalizing sw with
  | nil => exact ⟨sw, [], rfl, (append_nil _).symm, [], (append_nil _).symm⟩
  | cons alloc rest ih =>
    obtain ⟨sw₁, written, hadd, hgrows⟩ := add_grows (hvalid alloc mem_cons_self) sw
    obtain ⟨sw', written', haddAll, hgrows'⟩ := ih (fun a ha => hvalid a (mem_cons_of_mem _ ha)) sw₁
    exact ⟨sw', _, by rw [addAll, hadd, bind_some, haddAll], hgrows.trans hgrows'⟩

lemma add_eq (hmap : sw.MapOk boxing) {alloc : RValueAllocation} (hvalid : alloc.Valid boxing)
    (hadd : sw.add boxing alloc = some sw') (hsmall : sw.allocWriter.length < 2 ^ 32) :
    ∃ offset, Grows sw sw' (indexBytes (offset / 2)) ∧ Stored boxing sw'.allocWriter offset alloc ∧
      sw'.MapOk boxing := by
  obtain ⟨layout, hlaid⟩ := hvalid.laid
  rw [add] at hadd
  cases hlookup : sw.allocMap.lookup alloc with
  | some offset =>
    rw [hlookup] at hadd
    cases hadd
    exact ⟨offset, ⟨writeUnsigned_eq _ _, [], (append_nil _).symm⟩, hmap.stored alloc offset hlookup,
      hmap.even, hmap.stored⟩
  | none =>
    rw [hlookup] at hadd
    obtain ⟨padding, hpadding, heven⟩ := writePadding_eq (sw.allocWriter ++ alloc.bytes layout)
    have hwrite : alloc.write boxing sw.allocWriter = some (sw.allocWriter ++ (alloc.bytes layout ++ padding)) := by
      simp [hlaid.write_eq, hpadding]
    rw [append_assoc] at heven
    have hstored : Stored boxing (sw.allocWriter ++ (alloc.bytes layout ++ padding)) sw.allocWriter.length alloc := by
      refine ⟨hmap.even, alloc.bytes layout, padding, drop_left, ?_, hlaid.reads_bytes⟩
      simp
    dsimp only at hadd
    rw [hwrite, map_some, Nat.mod_eq_of_lt hsmall] at hadd
    cases hadd
    refine ⟨sw.allocWriter.length, ⟨writeUnsigned_eq _ _, _, rfl⟩, hstored, heven, fun other offset hother => ?_⟩
    rw [lookup_cons] at hother
    by_cases hsame : other = alloc
    · subst hsame
      rw [beq_self_eq_true] at hother
      cases hother
      exact hstored
    · rw [beq_false_of_ne hsame] at hother
      exact (hmap.stored other offset hother).append _

lemma addAll_eq (hmap : sw.MapOk boxing) {allocs : List RValueAllocation} (hvalid : ∀ a ∈ allocs, a.Valid boxing)
    (hadd : sw.addAll boxing allocs = some sw') (hsmall : sw'.allocWriter.length < 2 ^ 32) :
    ∃ offsets : List ℕ, Grows sw sw' (offsets.map fun offset => indexBytes (offset / 2)).flatten ∧
      List.Forall₂ (Stored boxing sw'.allocWriter) offsets allocs ∧ sw'.MapOk boxing := by
  induction allocs generalizing sw with
  | nil =>
    cases hadd
    exact ⟨[], ⟨(append_nil _).symm, [], (append_nil _).symm⟩, .nil, hmap⟩
  | cons alloc rest ih =>
    have hrest (a : RValueAllocation) (ha : a ∈ rest) : a.Valid boxing := hvalid a (mem_cons_of_mem _ ha)
    obtain ⟨sw₁, written, hadd₁, hgrows⟩ := add_grows (hvalid alloc mem_cons_self) sw
    rw [addAll, hadd₁, bind_some] at hadd
    obtain ⟨sw₂, written', hadd₂, hgrows'⟩ := addAll_grows hrest sw₁
    cases hadd₂.symm.trans hadd
    have hsmall' : sw.allocWriter.length < 2 ^ 32 := by
      have h₁ := hgrows.length_le.2
      have h₂ := hgrows'.length_le.2
      omega
    obtain ⟨offset, hgrows₁, hstored, hmap₁⟩ := add_eq hmap (hvalid alloc mem_cons_self) hadd₁ hsmall'
    obtain ⟨offsets, hgrows₂, hall, hmap₂⟩ := ih hmap₁ hrest hadd
    obtain ⟨more, hmore⟩ := hgrows₂.allocWriter
    refine ⟨offset :: offsets, ?_, .cons ?_ hall, hmap₂⟩
    · rw [map_cons, flatten_cons]
      exact hgrows₁.trans hgrows₂
    · rw [hmore]
      exact hstored.append more

/-! ## Reading a snapshot -/

/-- What is at the offset of a snapshot in the list. -/
structure At (boxing : ValueBoxing) (sw : SnapshotWriter) (offset : ℕ) (snapshot : Snapshot) : Prop where
  offset_le : offset ≤ sw.writer.length
  body : ∃ offsets : List ℕ, ∃ after : List Byte,
    sw.writer.drop offset = variableLength (snapshot.bailoutKind + snapshot.recoverOffset * 2 ^ 6)
      (snapshot.bailoutKind + snapshot.recoverOffset * 2 ^ 6) ++
        ((offsets.map fun offset => indexBytes (offset / 2)).flatten ++ after) ∧
    List.Forall₂ (Stored boxing sw.allocWriter) offsets snapshot.allocations

lemma At.grows {offset : ℕ} {snapshot : Snapshot} {written : List Byte} (h : At boxing sw offset snapshot)
    (hgrows : Grows sw sw' written) : At boxing sw' offset snapshot := by
  obtain ⟨offsets, after, hdrop, hstored⟩ := h.body
  obtain ⟨more, hmore⟩ := hgrows.allocWriter
  refine ⟨?_, offsets, after ++ written, ?_, ?_⟩
  · rw [hgrows.writer, List.length_append]
    exact h.offset_le.trans (Nat.le_add_right _ _)
  · simp [hgrows.writer, drop_append_of_le_length h.offset_le, hdrop]
  · rw [hmore]
    exact hstored.imp fun _ _ hs => hs.append more

lemma readAllocations_eq {table : List Byte} (hsmall : table.length < 2 ^ 32) {offsets : List ℕ}
    {allocs : List RValueAllocation} (hstored : List.Forall₂ (Stored boxing table) offsets allocs) (after : List Byte)
    (kind recoverOffset : ℕ) :
    readAllocations boxing
      ⟨(offsets.map fun offset => indexBytes (offset / 2)).flatten ++ after, table, kind, recoverOffset⟩ allocs.length =
        some allocs := by
  induction hstored with
  | nil => rfl
  | @cons offset alloc offsets allocs hfirst _ ih =>
    obtain ⟨heven, chunk, rest, hdrop, hle, hreads⟩ := hfirst
    have hindex := reads_variableLength (le_refl (offset / 2)) (show offset / 2 < 2 ^ 32 by omega)
    have hoffset : offset / 2 * ALLOCATION_TABLE_ALIGNMENT % 2 ^ 32 = offset := by
      rw [ALLOCATION_TABLE_ALIGNMENT]
      omega
    rw [length_cons, readAllocations, readAllocation, map_cons,
      flatten_cons, append_assoc, indexBytes, hindex, bind_some]
    dsimp only
    rw [hoffset, hdrop, hreads, map_some, bind_some]
    simp [ih]

lemma header_bits {kind recoverOffset : ℕ} (hkind : kind < 2 ^ 6) (hoffset : recoverOffset < 2 ^ 26) :
    (kind ||| recoverOffset <<< SNAPSHOT_ROFFSET_SHIFT) % 2 ^ 32 = kind + recoverOffset * 2 ^ 6 ∧
      (kind + recoverOffset * 2 ^ 6) &&& SNAPSHOT_BAILOUTKIND_MASK = kind ∧
      ((kind + recoverOffset * 2 ^ 6) &&& SNAPSHOT_ROFFSET_MASK) >>> SNAPSHOT_ROFFSET_SHIFT = recoverOffset := by
  have hor : kind ||| recoverOffset <<< SNAPSHOT_ROFFSET_SHIFT = kind + recoverOffset * 2 ^ 6 :=
    or_shiftLeft recoverOffset hkind
  have hmask : (kind + recoverOffset * 2 ^ 6) &&& SNAPSHOT_BAILOUTKIND_MASK = (kind + recoverOffset * 2 ^ 6) % 2 ^ 6 :=
    Nat.and_two_pow_sub_one_eq_mod _ 6
  have hshift : (kind + recoverOffset * 2 ^ 6) >>> 6 = recoverOffset := by
    omega
  have hmask' : (SNAPSHOT_ROFFSET_MASK >>> 6) = 2 ^ 26 - 1 := by decide
  refine ⟨?_, ?_, ?_⟩
  · omega
  · omega
  · rw [show SNAPSHOT_ROFFSET_SHIFT = 6 from rfl, Nat.shiftRight_and_distrib, hshift, hmask',
      Nat.and_two_pow_sub_one_eq_mod, Nat.mod_eq_of_lt hoffset]

lemma At.reads {offset : ℕ} {snapshot : Snapshot} (h : At boxing sw offset snapshot) (hvalid : snapshot.Valid boxing)
    (hsmall : sw.allocWriter.length < 2 ^ 32) : Reads boxing sw offset snapshot := by
  obtain ⟨offsets, after, hdrop, hstored⟩ := h.body
  obtain ⟨-, hkind, hoffset⟩ := header_bits hvalid.bailoutKind hvalid.recoverOffset
  have hheader := reads_variableLength (le_refl (snapshot.bailoutKind + snapshot.recoverOffset * 2 ^ 6)) (by
    have h₁ := hvalid.bailoutKind
    have h₂ := hvalid.recoverOffset
    omega)
  have hlist : sw.copy.take sw.writer.length = sw.writer := List.take_left
  have htable : (sw.copy.drop sw.writer.length).take sw.allocWriter.length = sw.allocWriter := by
    simp [copy]
  refine ⟨_, ?_, hkind, hoffset, readAllocations_eq hsmall hstored after _ _⟩
  rw [create, hlist, htable, hdrop, hheader, map_some, hkind, hoffset]

/-! ## Writing snapshots -/

lemma startSnapshot_grows (sw : SnapshotWriter) (recoverOffset kind : ℕ) :
    ∃ written, Grows sw (sw.startSnapshot recoverOffset kind).1 written :=
  ⟨_, writeUnsigned_eq _ _, [], (append_nil _).symm⟩

lemma endSnapshot_grows (debug : Bool) (sw : SnapshotWriter) : ∃ written, Grows sw (sw.endSnapshot debug) written := by
  rw [endSnapshot]
  split_ifs
  · exact ⟨_, writeSigned_eq sw.writer (-1), [], (append_nil _).symm⟩
  · exact ⟨[], (append_nil _).symm, [], (append_nil _).symm⟩

lemma mapOk_endSnapshot (debug : Bool) (h : sw.MapOk boxing) : (sw.endSnapshot debug).MapOk boxing := by
  rw [endSnapshot]
  split_ifs
  · exact ⟨h.even, h.stored⟩
  · exact h

lemma writeSnapshot_grows (debug : Bool) {snapshot : Snapshot} (hvalid : snapshot.Valid boxing) (sw : SnapshotWriter) :
    ∃ sw' offset written, sw.writeSnapshot boxing debug snapshot = some (sw', offset) ∧ Grows sw sw' written := by
  obtain ⟨first, hfirst⟩ := startSnapshot_grows sw snapshot.recoverOffset snapshot.bailoutKind
  obtain ⟨sw₂, second, hadd, hsecond⟩ := addAll_grows hvalid.allocations
    (sw.startSnapshot snapshot.recoverOffset snapshot.bailoutKind).1
  obtain ⟨third, hthird⟩ := endSnapshot_grows debug sw₂
  refine ⟨sw₂.endSnapshot debug, (sw.startSnapshot snapshot.recoverOffset snapshot.bailoutKind).2, _, ?_, (hfirst.trans hsecond).trans hthird⟩
  rw [writeSnapshot, hadd, map_some]

lemma writeSnapshots_grows (debug : Bool) {snapshots : List Snapshot} (hvalid : ∀ x ∈ snapshots, x.Valid boxing)
    (sw : SnapshotWriter) :
    ∃ sw' offsets written, sw.writeSnapshots boxing debug snapshots = some (sw', offsets) ∧ Grows sw sw' written := by
  induction snapshots generalizing sw with
  | nil => exact ⟨sw, [], [], rfl, (append_nil _).symm, [], (append_nil _).symm⟩
  | cons snapshot rest ih =>
    obtain ⟨sw₁, offset, written, hwrite, hgrows⟩ := writeSnapshot_grows debug (hvalid snapshot mem_cons_self) sw
    obtain ⟨sw', offsets, written', hrest, hgrows'⟩ := ih (fun x hx => hvalid x (mem_cons_of_mem _ hx)) sw₁
    refine ⟨sw', offset :: offsets, _, ?_, hgrows.trans hgrows'⟩
    simp [writeSnapshots, hwrite, hrest]

lemma at_writeSnapshot (hmap : sw.MapOk boxing) {snapshot : Snapshot} (hvalid : snapshot.Valid boxing) {offset : ℕ}
    (hwrite : sw.writeSnapshot boxing debug snapshot = some (sw', offset)) (hlist : sw'.writer.length < 2 ^ 32)
    (htable : sw'.allocWriter.length < 2 ^ 32) : At boxing sw' offset snapshot ∧ sw'.MapOk boxing := by
  obtain ⟨hbits, -, -⟩ := header_bits hvalid.bailoutKind hvalid.recoverOffset
  rw [writeSnapshot] at hwrite
  set sw₁ := (sw.startSnapshot snapshot.recoverOffset snapshot.bailoutKind).1
  have hfirst : sw₁.writer = sw.writer ++ variableLength (snapshot.bailoutKind + snapshot.recoverOffset * 2 ^ 6)
      (snapshot.bailoutKind + snapshot.recoverOffset * 2 ^ 6) := by
    rw [← hbits]
    exact writeUnsigned_eq _ _
  have hmap₁ : sw₁.MapOk boxing := ⟨hmap.even, hmap.stored⟩
  obtain ⟨sw₂, hadd, hlast⟩ := map_eq_some_iff.1 hwrite
  obtain ⟨hsw', hoffset⟩ := Prod.mk.inj hlast
  obtain ⟨third, hthird⟩ := endSnapshot_grows debug sw₂
  rw [hsw'] at hthird
  have hle := hthird.length_le
  obtain ⟨offsets, hgrows, hstored, hmap₂⟩ := addAll_eq hmap₁ hvalid.allocations hadd (by omega)
  have hwriter : sw₂.writer = sw.writer ++ (variableLength (snapshot.bailoutKind + snapshot.recoverOffset * 2 ^ 6)
      (snapshot.bailoutKind + snapshot.recoverOffset * 2 ^ 6) ++
        (offsets.map fun offset => indexBytes (offset / 2)).flatten) := by
    simp [hgrows.writer, hfirst]
  have hbefore : sw.writer.length ≤ sw₂.writer.length := by
    simp [hwriter]
  have hoffset' : offset = sw.writer.length := hoffset.symm.trans (Nat.mod_eq_of_lt (by omega))
  have hat : At boxing sw₂ offset snapshot := by
    rw [hoffset']
    refine ⟨hbefore, offsets, [], ?_, hstored⟩
    simp [hwriter]
  exact ⟨hat.grows hthird, hsw' ▸ mapOk_endSnapshot debug hmap₂⟩

lemma at_writeSnapshots (hmap : sw.MapOk boxing) {snapshots : List Snapshot} (hvalid : ∀ x ∈ snapshots, x.Valid boxing)
    {offsets : List ℕ} (hwrite : sw.writeSnapshots boxing debug snapshots = some (sw', offsets))
    (hlist : sw'.writer.length < 2 ^ 32) (htable : sw'.allocWriter.length < 2 ^ 32) :
    List.Forall₂ (fun offset x => At boxing sw' offset x ∧ x.Valid boxing) offsets snapshots := by
  induction snapshots generalizing sw offsets with
  | nil =>
    cases hwrite
    exact .nil
  | cons snapshot rest ih =>
    have hvalid' (x : Snapshot) (hx : x ∈ rest) : x.Valid boxing := hvalid x (mem_cons_of_mem _ hx)
    obtain ⟨sw₁, offset, written, hfirst, hgrows⟩ := writeSnapshot_grows debug (hvalid snapshot mem_cons_self) sw
    obtain ⟨sw₂, offsets₂, written₂, hrest, hgrows₂⟩ := writeSnapshots_grows debug hvalid' sw₁
    rw [writeSnapshots, hfirst, bind_some, hrest, map_some] at hwrite
    cases hwrite
    have hle := hgrows₂.length_le
    obtain ⟨hat, hmap₁⟩ := at_writeSnapshot hmap (hvalid snapshot mem_cons_self) hfirst (hle.1.trans_lt hlist)
      (hle.2.trans_lt htable)
    exact .cons ⟨hat.grows hgrows₂, hvalid snapshot mem_cons_self⟩ (ih hmap₁ hvalid' hrest)

lemma mapOk_empty : empty.MapOk boxing := ⟨rfl, nofun⟩

/-- Snapshots are written, and each one is read back from its offset unless the buffers are too large. -/
theorem snapshots_read_back (boxing : ValueBoxing) (debug : Bool) (snapshots : List Snapshot)
    (hvalid : ∀ x ∈ snapshots, x.Valid boxing) :
    ∃ sw offsets, empty.writeSnapshots boxing debug snapshots = some (sw, offsets) ∧
      (sw.oom = false → List.Forall₂ (Reads boxing sw) offsets snapshots) := by
  obtain ⟨sw, offsets, written, hwrite, -⟩ := writeSnapshots_grows debug hvalid empty
  refine ⟨sw, offsets, hwrite, fun hoom => ?_⟩
  have hmax : MAX_BUFFER_SIZE = 1073741823 := rfl
  rw [oom, Bool.or_eq_false_iff, decide_eq_false_iff_not, decide_eq_false_iff_not] at hoom
  have hall := at_writeSnapshots mapOk_empty hvalid hwrite (by omega) (by omega)
  exact hall.imp fun _ _ h => h.1.reads h.2 (by omega)

/-- Two snapshots with the same allocations, one of them a typed register. -/
def sharedAllocations : List Snapshot :=
  [⟨1, 10, [⟨RECOVER_SIDE_EFFECT_MASK ||| TYPED_REG_MIN, 5#32, 3#32⟩, ⟨ANY_FLOAT_STACK, (-8 : BitVec 32), 0#32⟩]⟩,
    ⟨2, 70000, [⟨ANY_FLOAT_STACK, (-8 : BitVec 32), 0#32⟩, ⟨CONSTANT, 300#32, 0#32⟩,
      ⟨RECOVER_SIDE_EFFECT_MASK ||| TYPED_REG_MIN, 5#32, 3#32⟩]⟩]

lemma valid_sharedAllocations : ∀ x ∈ sharedAllocations, x.Valid .punbox64 := by
  have hfirst : (⟨RECOVER_SIDE_EFFECT_MASK ||| TYPED_REG_MIN, 5#32, 3#32⟩ : RValueAllocation).Valid .punbox64 :=
    ⟨⟨.packedTag, .gpr⟩, by decide, by decide, show (5#32).toNat < 16 by decide, show (3#32).toNat < 256 by decide,
      fun _ => by decide⟩
  have hsecond : (⟨ANY_FLOAT_STACK, (-8 : BitVec 32), 0#32⟩ : RValueAllocation).Valid .punbox64 :=
    ⟨⟨.stackOffset, .none⟩, by decide, by decide, trivial, rfl, nofun⟩
  have hthird : (⟨CONSTANT, 300#32, 0#32⟩ : RValueAllocation).Valid .punbox64 :=
    ⟨⟨.index, .none⟩, by decide, by decide, trivial, rfl, nofun⟩
  intro x hx
  obtain rfl | hx := mem_cons.1 hx
  · refine ⟨by decide, by decide, ?_⟩
    rintro alloc (_ | ⟨_, _ | ⟨_, hnil⟩⟩)
    · exact hfirst
    · exact hsecond
    · cases hnil
  · obtain rfl := mem_singleton.1 hx
    refine ⟨by decide, by decide, ?_⟩
    rintro alloc (_ | ⟨_, _ | ⟨_, _ | ⟨_, hnil⟩⟩⟩)
    · exact hsecond
    · exact hthird
    · exact hfirst
    · cases hnil

theorem snapshots_read_back_sharedAllocations :
    ∃ sw offsets, empty.writeSnapshots .punbox64 true sharedAllocations = some (sw, offsets) ∧
      List.Forall₂ (Reads .punbox64 sw) offsets sharedAllocations := by
  obtain ⟨sw, offsets, hwrite, hreads⟩ := snapshots_read_back .punbox64 true sharedAllocations valid_sharedAllocations
  have hsmall : (empty.writeSnapshots .punbox64 true sharedAllocations).map (fun p => p.1.oom) = some false := by
    decide +kernel
  rw [hwrite] at hsmall
  exact ⟨sw, offsets, hwrite, hreads (Option.some.inj hsmall)⟩

end SnapshotWriter

end SpiderMonkey.Jit
