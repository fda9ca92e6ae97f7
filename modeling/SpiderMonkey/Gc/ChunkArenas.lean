import SpiderMonkey.Gc.ChunkPools

/-!
# The arenas of a chunk are in one place

Every arena of a chunk is held by a zone, detached, in the list of the free arenas, or decommitted
(`Chunk.Ok`).  Each operation on a chunk moves one arena between these places, except that
`decommitFreeArenasWithoutUnlocking` moves all those for which the system call succeeds, and keeps the list
right if they are at its end (`Chunk.Ok.decommitFreeArenas`).
-/

namespace SpiderMonkey.Gc.Chunk

open List Function

/-- The arenas whose bit is set. -/
def decommitted (chunk : Chunk) : Finset ℕ :=
  (Finset.range ArenasPerChunk).filter fun a => chunk.decommittedArenas a = true

structure Ok (chunk : Chunk) (held detached : Finset ℕ) (l : List ℕ) : Prop where
  beginsWith : BeginsWith chunk.next chunk.freeArenasHead l
  length : l.length = chunk.numArenasFreeCommitted
  nodup : l.Nodup
  mem : ∀ a, a ∈ l ↔ a < ArenasPerChunk ∧ a ∉ held ∧ a ∉ detached ∧ chunk.decommittedArenas a = false
  decommitted : ∀ a ∈ chunk.decommitted, a ∉ held ∧ a ∉ detached
  free : chunk.numArenasFree = chunk.numArenasFreeCommitted + chunk.decommitted.card
  held : ∀ a ∈ held, a < ArenasPerChunk ∧ (chunk.arenas a).allocated = true
  detached : ∀ a ∈ detached, a < ArenasPerChunk ∧ (chunk.arenas a).allocated = false
  list : ∀ a ∈ l, (chunk.arenas a).allocated = false

variable {chunk : Chunk} {held detached : Finset ℕ} {l : List ℕ} {a : ℕ}

lemma mem_decommitted : a ∈ chunk.decommitted ↔ a < ArenasPerChunk ∧ chunk.decommittedArenas a = true := by
  simp [decommitted]

namespace Ok

open Finset

lemma freeArenas_eq (h : chunk.Ok held detached l) : chunk.freeArenas = l := by
  rw [freeArenas, ← h.length, h.beginsWith.nodesFrom_eq]

variable (h : chunk.Ok held detached l)
include h

lemma not_mem_held (ha : a ∈ detached) : a ∉ held := by
  intro hheld
  have hbit := (h.held a hheld).2
  simp [(h.detached a ha).2] at hbit

lemma bit_eq_false (ha : a ∈ held ∨ a ∈ detached) : chunk.decommittedArenas a = false := by
  by_contra hbit
  have hlt : a < ArenasPerChunk := ha.elim (fun ha => (h.held a ha).1) fun ha => (h.detached a ha).1
  have hnot := h.decommitted a (mem_decommitted.2 ⟨hlt, Bool.not_eq_false _ ▸ hbit⟩)
  exact ha.elim hnot.1 hnot.2

lemma card_eq : held.card + detached.card + chunk.numArenasFree = ArenasPerChunk := by
  have hunion : Finset.range ArenasPerChunk = held ∪ detached ∪ l.toFinset ∪ chunk.decommitted := by
    ext a
    simp only [Finset.mem_range, mem_union, mem_toFinset, h.mem, mem_decommitted]
    constructor
    · intro ha
      by_cases hheld : a ∈ held
      · exact .inl (.inl (.inl hheld))
      · by_cases hdetached : a ∈ detached
        · exact .inl (.inl (.inr hdetached))
        · cases hbit : chunk.decommittedArenas a with
          | false => exact .inl (.inr ⟨ha, hheld, hdetached, rfl⟩)
          | true => exact .inr ⟨ha, rfl⟩
    · rintro (((ha | ha) | ha) | ha)
      · exact (h.held a ha).1
      · exact (h.detached a ha).1
      · exact ha.1
      · exact ha.1
  have hcard := congrArg card hunion
  rw [card_range, card_union_of_disjoint, card_union_of_disjoint,
    card_union_of_disjoint, toFinset_card_of_nodup h.nodup, h.length] at hcard
  · rw [h.free]
    omega
  · exact Finset.disjoint_left.2 fun a ha hd => h.not_mem_held hd ha
  · refine Finset.disjoint_left.2 fun a ha hl => ?_
    have hmem := (h.mem a).1 (mem_toFinset.1 hl)
    exact (mem_union.1 ha).elim hmem.2.1 hmem.2.2.1
  · refine Finset.disjoint_left.2 fun a ha hd => ?_
    obtain ha | ha := mem_union.1 ha
    · exact (mem_union.1 ha).elim (h.decommitted a hd).1 (h.decommitted a hd).2
    · have hbit := ((h.mem a).1 (mem_toFinset.1 ha)).2.2.2
      simp [(mem_decommitted.1 hd).2] at hbit

end Ok

lemma ok_decommitAllArenas (contents : ℕ → ArenaHeader) : (decommitAllArenas contents).Ok ∅ ∅ [] where
  beginsWith := trivial
  length := rfl
  nodup := nodup_nil
  mem a := by simp [decommitAllArenas]
  decommitted a _ := ⟨Finset.notMem_empty a, Finset.notMem_empty a⟩
  free := by
    have hall : (decommitAllArenas contents).decommitted = Finset.range ArenasPerChunk :=
      Finset.filter_true_of_mem fun _ _ => rfl
    rw [hall, Finset.card_range]
    exact (Nat.zero_add _).symm
  held a ha := absurd ha (Finset.notMem_empty a)
  detached a ha := absurd ha (Finset.notMem_empty a)
  list a ha := absurd ha not_mem_nil

/-! ## Headers -/

lemma next_setHeader (b : ℕ) (header : ArenaHeader) :
    (chunk.setHeader a header).next b = if b = a then header.next else chunk.next b := by
  rw [next, setHeader]
  dsimp only
  rw [update_apply, apply_ite ArenaHeader.next]
  rfl

lemma allocated_setHeader (b : ℕ) (header : ArenaHeader) : ((chunk.setHeader a header).arenas b).allocated =
    if b = a then header.allocated else (chunk.arenas b).allocated := by
  rw [setHeader]
  dsimp only
  rw [update_apply, apply_ite ArenaHeader.allocated]

namespace Ok

section

variable (h : chunk.Ok held detached l)

include h

/-- The header of an arena that is not in the list is changed; the arena is then where its header says. -/
lemma setHeader (header : ArenaHeader) (ha : a ∈ held ∨ a ∈ detached) :
    (chunk.setHeader a header).Ok (if header.allocated = true then insert a held else held.erase a)
      (if header.allocated = true then detached.erase a else insert a detached) l := by
  have hbit := h.bit_eq_false ha
  have hlt : a < ArenasPerChunk := ha.elim (fun ha => (h.held a ha).1) fun ha => (h.detached a ha).1
  have hnot : a ∉ l := fun hmem => ha.elim ((h.mem a).1 hmem).2.1 ((h.mem a).1 hmem).2.2.1
  have hne {b : ℕ} (hb : b ∈ l) : b ≠ a := fun heq => hnot (heq ▸ hb)
  -- the places of the other arenas are the same
  have hheld (b : ℕ) (hb : b ≠ a) :
      b ∈ (if header.allocated = true then insert a held else held.erase a) ↔ b ∈ held := by
    split_ifs
    · simp [or_iff_right hb]
    · simp [and_iff_right hb]
  have hdetached (b : ℕ) (hb : b ≠ a) :
      b ∈ (if header.allocated = true then detached.erase a else insert a detached) ↔ b ∈ detached := by
    split_ifs
    · simp [and_iff_right hb]
    · simp [or_iff_right hb]
  refine ⟨h.beginsWith.congr fun b hb => ?_, h.length, h.nodup, fun b => ?_, fun b hb => ?_, h.free,
    fun b hb => ?_, fun b hb => ?_, fun b hb => ?_⟩
  · rw [next_setHeader, if_neg (hne hb)]
  · by_cases heq : b = a
    · subst heq
      refine ⟨fun hmem => absurd hmem hnot, fun hmem => ?_⟩
      split_ifs at hmem
      · exact absurd (Finset.mem_insert_self b held) hmem.2.1
      · exact absurd (Finset.mem_insert_self b detached) hmem.2.2.1
    · rw [hheld b heq, hdetached b heq]
      exact h.mem b
  · have hb' : b ≠ a := by
      rintro rfl
      have hset := (mem_decommitted.1 hb).2
      simp [show (chunk.setHeader b header).decommittedArenas b = chunk.decommittedArenas b from rfl, hbit] at hset
    rw [hheld b hb', hdetached b hb']
    exact h.decommitted b hb
  · rw [allocated_setHeader]
    by_cases heq : b = a
    · subst heq
      refine ⟨hlt, ?_⟩
      rw [if_pos rfl]
      split_ifs at hb with halloc
      · exact halloc
      · exact absurd hb (Finset.notMem_erase b held)
    · rw [if_neg heq]
      exact h.held b ((hheld b heq).1 hb)
  · rw [allocated_setHeader]
    by_cases heq : b = a
    · subst heq
      refine ⟨hlt, ?_⟩
      rw [if_pos rfl]
      split_ifs at hb with halloc
      · exact absurd hb (Finset.notMem_erase b detached)
      · exact Bool.eq_false_iff.2 halloc
    · rw [if_neg heq]
      exact h.detached b ((hdetached b heq).1 hb)
  · rw [allocated_setHeader, if_neg (hne hb)]
    exact h.list b hb

lemma initArena (ha : a ∈ detached) :
    (chunk.initArena a).Ok (insert a held) (detached.erase a) l := h.setHeader ⟨true, chunk.next a⟩ (.inr ha)

lemma setAsNotAllocated (ha : a ∈ held) : (chunk.setAsNotAllocated a).Ok (held.erase a) (insert a detached) l :=
  h.setHeader ⟨false, chunk.next a⟩ (.inl ha)

lemma setNext (ha : a ∈ held) (next : Option ℕ) :
    (chunk.setHeader a ⟨(chunk.arenas a).allocated, next⟩).Ok held detached l := by
  have hset := h.setHeader ⟨(chunk.arenas a).allocated, next⟩ (.inl ha)
  have hnot : a ∉ detached := fun hd => h.not_mem_held hd ha
  dsimp only at hset
  rwa [if_pos (h.held a ha).2, if_pos (h.held a ha).2, Finset.insert_eq_of_mem ha,
    Finset.erase_eq_of_notMem hnot] at hset

lemma setHeader_of_decommitted (header : ArenaHeader)
    (hbit : chunk.decommittedArenas a = true) : (chunk.setHeader a header).Ok held detached l := by
  have hne {b : ℕ} (hb : chunk.decommittedArenas b = false) : b ≠ a := by
    rintro rfl
    simp [hbit] at hb
  have hlist {b : ℕ} (hb : b ∈ l) : b ≠ a := hne ((h.mem b).1 hb).2.2.2
  refine ⟨h.beginsWith.congr fun b hb => ?_, h.length, h.nodup, h.mem, h.decommitted, h.free,
    fun b hb => ⟨(h.held b hb).1, ?_⟩, fun b hb => ⟨(h.detached b hb).1, ?_⟩, fun b hb => ?_⟩
  · rw [next_setHeader, if_neg (hlist hb)]
  · rw [allocated_setHeader, if_neg (hne (h.bit_eq_false (.inl hb)))]
    exact (h.held b hb).2
  · rw [allocated_setHeader, if_neg (hne (h.bit_eq_false (.inr hb)))]
    exact (h.detached b hb).2
  · rw [allocated_setHeader, if_neg (hlist hb)]
    exact h.list b hb

/-! ## Arenas that are freed -/

lemma addArenaToFreeList (ha : a ∈ detached) : (chunk.addArenaToFreeList a).Ok held (detached.erase a) (a :: l) := by
  have hnot : a ∉ l := fun hmem => ((h.mem a).1 hmem).2.2.1 ha
  have hset := h.setHeader ⟨(chunk.arenas a).allocated, chunk.freeArenasHead⟩ (.inr ha)
  dsimp only at hset
  rw [if_neg (Bool.eq_false_iff.1 (h.detached a ha).2), if_neg (Bool.eq_false_iff.1 (h.detached a ha).2),
    Finset.insert_eq_of_mem ha, Finset.erase_eq_of_notMem (h.not_mem_held ha)] at hset
  refine ⟨h.beginsWith.push ?_ fun b hb => ?_, congrArg (· + 1) h.length, nodup_cons.2 ⟨hnot, h.nodup⟩,
    fun b => ?_, fun b hb => ?_, ?_, hset.held, fun b hb => hset.detached b (Finset.mem_of_mem_erase hb),
    fun b hb => ?_⟩
  · exact (next_setHeader a _).trans (if_pos rfl)
  · refine (next_setHeader b _).trans (if_neg ?_)
    rintro rfl
    exact hnot hb
  · rw [mem_cons, h.mem, Finset.mem_erase, not_and_or, not_not]
    constructor
    · rintro (rfl | ⟨hlt, hheld, hdetached, hbit⟩)
      · exact ⟨(h.detached b ha).1, h.not_mem_held ha, .inl rfl, h.bit_eq_false (.inr ha)⟩
      · exact ⟨hlt, hheld, .inr hdetached, hbit⟩
    · rintro ⟨hlt, hheld, heq | hdetached, hbit⟩
      · exact .inl heq
      · exact .inr ⟨hlt, hheld, hdetached, hbit⟩
  · exact ⟨(h.decommitted b hb).1, fun hmem => (h.decommitted b hb).2 (Finset.mem_of_mem_erase hmem)⟩
  · have hfree := h.free
    change chunk.numArenasFree + 1 = chunk.numArenasFreeCommitted + 1 + chunk.decommitted.card
    omega
  · obtain rfl | hb := mem_cons.1 hb
    · exact (hset.detached b ha).2
    · exact hset.list b hb

end

lemma decommitted_update_true (chunk' : Chunk) (hlt : a < ArenasPerChunk) (hbit : chunk.decommittedArenas a = false)
    (hupdate : chunk'.decommittedArenas = Function.update chunk.decommittedArenas a true) :
    chunk'.decommitted = insert a chunk.decommitted ∧ chunk'.decommitted.card = chunk.decommitted.card + 1 := by
  have hinsert : chunk'.decommitted = insert a chunk.decommitted := by
    ext b
    rw [mem_decommitted, Finset.mem_insert, mem_decommitted, hupdate, update_apply]
    split_ifs with heq
    · simp [heq, hlt]
    · simp [heq]
  refine ⟨hinsert, ?_⟩
  rw [hinsert, Finset.card_insert_of_notMem]
  intro hmem
  simp [(mem_decommitted.1 hmem).2] at hbit

lemma addArenaToDecommittedList (h : chunk.Ok held detached l) (ha : a ∈ detached) :
    (chunk.addArenaToDecommittedList a).Ok held (detached.erase a) l := by
  obtain ⟨hinsert, hcard⟩ := decommitted_update_true (chunk.addArenaToDecommittedList a)
    (h.detached a ha).1 (h.bit_eq_false (.inr ha)) rfl
  refine ⟨h.beginsWith, h.length, h.nodup, fun b => ?_, fun b hb => ?_, ?_, h.held,
    fun b hb => h.detached b (Finset.mem_of_mem_erase hb), h.list⟩
  · rw [h.mem, Finset.mem_erase, not_and_or, not_not]
    dsimp only [Chunk.addArenaToDecommittedList]
    rw [update_apply]
    by_cases heq : b = a
    · subst heq
      rw [if_pos rfl]
      exact iff_of_false (fun hand => hand.2.2.1 ha) fun hand => Bool.noConfusion hand.2.2.2
    · simp [heq]
  · rw [hinsert, Finset.mem_insert] at hb
    obtain rfl | hb := hb
    · exact ⟨h.not_mem_held ha, Finset.notMem_erase b detached⟩
    · exact ⟨(h.decommitted b hb).1, fun hmem => (h.decommitted b hb).2 (Finset.mem_of_mem_erase hmem)⟩
  · have hfree := h.free
    rw [hcard]
    change chunk.numArenasFree + 1 = chunk.numArenasFreeCommitted + (chunk.decommitted.card + 1)
    omega

lemma decommitOne (h : chunk.Ok held detached l) (ha : a ∈ detached) (header : ArenaHeader) :
    ((chunk.setHeader a header).addArenaToDecommittedList a).Ok held (detached.erase a) l :=
  (h.addArenaToDecommittedList ha).setHeader_of_decommitted header (update_self _ _ _)

/-! ## Arenas that are fetched -/

lemma decommitted_update_false (chunk' : Chunk) (ha : a ∈ chunk.decommitted)
    (hupdate : chunk'.decommittedArenas = Function.update chunk.decommittedArenas a false) :
    chunk'.decommitted = chunk.decommitted.erase a ∧ chunk'.decommitted.card + 1 = chunk.decommitted.card := by
  have herase : chunk'.decommitted = chunk.decommitted.erase a := by
    ext b
    rw [mem_decommitted, Finset.mem_erase, mem_decommitted, hupdate, update_apply]
    split_ifs with heq
    · simp [heq]
    · simp [heq]
  exact ⟨herase, herase ▸ Finset.card_erase_add_one ha⟩

lemma fetchNextFreeArena (h : chunk.Ok held detached (a :: l)) : ∃ chunk', chunk.fetchNextFreeArena =
    some (a, chunk') ∧ chunk'.Ok held (insert a detached) l ∧
    chunk'.numArenasFreeCommitted + 1 = chunk.numArenasFreeCommitted ∧
    chunk'.numArenasFree + 1 = chunk.numArenasFree ∧ chunk'.decommittedArenas a = false := by
  obtain ⟨hlt, hheld, hdetached, hbit⟩ := (h.mem a).1 mem_cons_self
  obtain ⟨hhead, hbegins⟩ := h.beginsWith
  have hnodup := nodup_cons.1 h.nodup
  have hlength := h.length
  have hfree := h.free
  rw [length_cons] at hlength
  rw [Chunk.fetchNextFreeArena, hhead]
  refine ⟨_, rfl, ⟨hbegins, ?_, hnodup.2, fun b => ?_, fun b hb => ⟨(h.decommitted b hb).1, ?_⟩, ?_, h.held,
    fun b hb => ?_, fun b hb => h.list b (mem_cons_of_mem a hb)⟩, ?_, ?_, hbit⟩
  · dsimp only
    omega
  · have hmem := h.mem b
    rw [mem_cons] at hmem
    dsimp only
    rw [Finset.mem_insert, not_or]
    constructor
    · intro hb
      obtain ⟨hlt, hheld, hdetached, hbit⟩ := hmem.1 (.inr hb)
      exact ⟨hlt, hheld, ⟨fun heq => hnodup.1 (heq ▸ hb), hdetached⟩, hbit⟩
    · rintro ⟨hlt, hheld, ⟨hne, hdetached⟩, hbit⟩
      exact (hmem.2 ⟨hlt, hheld, hdetached, hbit⟩).resolve_left hne
  · rw [Finset.mem_insert, not_or]
    refine ⟨?_, (h.decommitted b hb).2⟩
    rintro rfl
    have hset := (mem_decommitted.1 hb).2
    simp [show chunk.decommittedArenas b = false from hbit] at hset
  · change chunk.numArenasFree - 1 = chunk.numArenasFreeCommitted - 1 + chunk.decommitted.card
    omega
  · obtain rfl | hb := Finset.mem_insert.1 hb
    · exact ⟨hlt, h.list b mem_cons_self⟩
    · exact h.detached b hb
  · dsimp only
    omega
  · dsimp only
    omega

lemma exists_findDecommitted (h : chunk.Ok held detached []) (hfree : 0 < chunk.numArenasFree)
    (hlast : chunk.lastDecommittedArenaOffset ≤ ArenasPerChunk) :
    ∃ a, chunk.findDecommittedArenaOffset = some a ∧ a ∈ chunk.decommitted := by
  have hcard := h.free
  rw [← h.length, length_nil, Nat.zero_add] at hcard
  obtain ⟨b, hb⟩ := Finset.card_pos.1 (hcard ▸ hfree)
  have hlist (b : ℕ) : b ∈ List.range' chunk.lastDecommittedArenaOffset
      (ArenasPerChunk - chunk.lastDecommittedArenaOffset) ++ List.range chunk.lastDecommittedArenaOffset ↔
        b < ArenasPerChunk := by
    rw [mem_append, mem_range'_1, mem_range]
    omega
  rw [mem_decommitted] at hb
  cases hfind : chunk.findDecommittedArenaOffset with
  | none => exact absurd hb.2 (find?_eq_none.1 hfind b ((hlist b).2 hb.1))
  | some a =>
    exact ⟨a, rfl, mem_decommitted.2 ⟨(hlist a).1 (mem_of_find?_eq_some hfind), find?_some hfind⟩⟩

lemma fetchNextDecommittedArena (h : chunk.Ok held detached []) (hfree : 0 < chunk.numArenasFree)
    (hlast : chunk.lastDecommittedArenaOffset ≤ ArenasPerChunk) :
    ∃ a chunk', chunk.findDecommittedArenaOffset = some a ∧ chunk.fetchNextDecommittedArena = some (a, chunk') ∧
      a ∈ chunk.decommitted ∧ chunk'.Ok held (insert a detached) [] ∧
      chunk'.lastDecommittedArenaOffset ≤ ArenasPerChunk ∧
      chunk'.numArenasFreeCommitted = chunk.numArenasFreeCommitted ∧
      chunk'.numArenasFree + 1 = chunk.numArenasFree ∧ chunk'.decommittedArenas a = false := by
  obtain ⟨a, hfind, ha⟩ := h.exists_findDecommitted hfree hlast
  obtain ⟨hlt, hbit⟩ := mem_decommitted.1 ha
  have hset := h.setHeader_of_decommitted ⟨false, chunk.next a⟩ hbit
  have hcard := h.free
  rw [Chunk.fetchNextDecommittedArena, hfind]
  dsimp only
  set chunk' : Chunk := { chunk.setAsNotAllocated a with
    lastDecommittedArenaOffset := a + 1
    numArenasFree := chunk.numArenasFree - 1
    decommittedArenas := Function.update chunk.decommittedArenas a false } with hchunk'
  obtain ⟨herase, hcard'⟩ := decommitted_update_false chunk' ha rfl
  refine ⟨a, chunk', rfl, rfl, ha, ⟨trivial, h.length, nodup_nil, fun b => ?_, fun b hb => ?_, ?_, hset.held,
    fun b hb => ?_, hset.list⟩, hlt, rfl, ?_, update_self _ _ _⟩
  · rw [Finset.mem_insert, not_or, hchunk']
    dsimp only
    rw [update_apply]
    by_cases heq : b = a
    · simp [heq]
    · rw [if_neg heq, and_iff_right heq]
      exact h.mem b
  · rw [herase] at hb
    obtain ⟨hne, hb⟩ := Finset.mem_erase.1 hb
    rw [Finset.mem_insert, not_or]
    exact ⟨(h.decommitted b hb).1, hne, (h.decommitted b hb).2⟩
  · change chunk.numArenasFree - 1 = chunk.numArenasFreeCommitted + chunk'.decommitted.card
    omega
  · obtain rfl | hb := Finset.mem_insert.1 hb
    · exact ⟨hlt, (allocated_setHeader b _).trans (if_pos rfl)⟩
    · exact hset.detached b hb
  · rw [hchunk']
    dsimp only
    omega

end Ok

/-! ## Decommitting all free arenas -/

section Decommit

variable {ok : ℕ → Bool} {contents : ℕ → ArenaHeader}

/-- The arena is decommitted by the loop. -/
def Decommits (chunk : Chunk) (ok : ℕ → Bool) (a : ℕ) : Prop :=
  (chunk.decommittedArenas a = false ∧ (chunk.arenas a).allocated = false) ∧ ok a = true

instance : DecidablePred (chunk.Decommits ok) := fun _ => inferInstanceAs (Decidable (_ ∧ _))

lemma decommitFreeArena_of_decommits (h : chunk.Decommits ok a) : chunk.decommitFreeArena ok contents a =
    { chunk.setHeader a (contents a) with
      numArenasFreeCommitted := chunk.numArenasFreeCommitted - 1
      decommittedArenas := Function.update chunk.decommittedArenas a true } := by
  obtain ⟨⟨hbit, halloc⟩, hok⟩ := h
  rw [decommitFreeArena, if_neg, if_pos hok]
  simp [hbit, halloc]

lemma decommitFreeArena_of_not (h : ¬ chunk.Decommits ok a) : chunk.decommitFreeArena ok contents a = chunk := by
  rw [decommitFreeArena]
  split_ifs with hskip hok
  · rfl
  · rw [not_or, Bool.not_eq_true, Bool.not_eq_true] at hskip
    exact absurd ⟨hskip, hok⟩ h
  · rfl

/-- What is decommitted by the loop over some arenas. -/
structure Decommitted (chunk : Chunk) (ok : ℕ → Bool) (arenas : List ℕ) (chunk' : Chunk) : Prop where
  head : chunk'.freeArenasHead = chunk.freeArenasHead
  last : chunk'.lastDecommittedArenaOffset = chunk.lastDecommittedArenaOffset
  free : chunk'.numArenasFree = chunk.numArenasFree
  header : ∀ a, ¬ (a ∈ arenas ∧ chunk.Decommits ok a) → chunk'.arenas a = chunk.arenas a
  bit : ∀ a, chunk'.decommittedArenas a = true ↔ chunk.decommittedArenas a = true ∨ (a ∈ arenas ∧ chunk.Decommits ok a)
  committed : chunk'.numArenasFreeCommitted =
    chunk.numArenasFreeCommitted - (arenas.filter fun a => decide (chunk.Decommits ok a)).length

lemma decommitted_foldl (ok : ℕ → Bool) (contents : ℕ → ArenaHeader) (arenas : List ℕ) (hnodup : arenas.Nodup)
    (chunk : Chunk) :
    Decommitted chunk ok arenas (arenas.foldl (fun chunk i => chunk.decommitFreeArena ok contents i) chunk) := by
  induction arenas generalizing chunk with
  | nil => exact ⟨rfl, rfl, rfl, fun _ _ => rfl, fun a => by simp, rfl⟩
  | cons i arenas ih =>
    obtain ⟨hi, hnodup⟩ := nodup_cons.1 hnodup
    rw [foldl_cons]
    by_cases hdec : chunk.Decommits ok i
    · rw [decommitFreeArena_of_decommits hdec]
      set chunk₁ : Chunk := { chunk.setHeader i (contents i) with
        numArenasFreeCommitted := chunk.numArenasFreeCommitted - 1
        decommittedArenas := Function.update chunk.decommittedArenas i true } with hchunk₁
      obtain ⟨hhead, hlast, hfree, hheader, hbit, hcommitted⟩ := ih hnodup chunk₁
      have hne {a : ℕ} (ha : a ∈ arenas) : a ≠ i := fun heq => hi (heq ▸ ha)
      -- the other arenas are as they were
      have hsame {a : ℕ} (ha : a ≠ i) : chunk₁.Decommits ok a ↔ chunk.Decommits ok a := by
        simp only [Decommits, hchunk₁, Chunk.setHeader, update_of_ne ha]
      have hand (a : ℕ) : a ∈ arenas ∧ chunk₁.Decommits ok a ↔ a ∈ arenas ∧ chunk.Decommits ok a :=
        and_congr_right fun ha => hsame (hne ha)
      refine ⟨hhead, hlast, hfree, fun a ha => ?_, fun a => ?_, ?_⟩
      · rw [mem_cons, or_and_right, not_or] at ha
        have hai : a ≠ i := by
          rintro rfl
          exact ha.1 ⟨rfl, hdec⟩
        rw [hheader a ((hand a).not.2 ha.2)]
        exact update_of_ne hai _ _
      · rw [hbit, hand, hchunk₁]
        dsimp only
        rw [update_apply, mem_cons]
        by_cases hai : a = i
        · subst hai
          simp [hdec]
        · simp [hai]
      · have hfilter : arenas.filter (fun a => decide (chunk₁.Decommits ok a)) =
            arenas.filter fun a => decide (chunk.Decommits ok a) :=
          filter_congr fun a ha => decide_eq_decide.2 (hsame (hne ha))
        rw [hcommitted, hfilter, filter_cons, if_pos (by simpa using hdec), length_cons, hchunk₁]
        dsimp only
        omega
    · rw [decommitFreeArena_of_not hdec]
      obtain ⟨hhead, hlast, hfree, hheader, hbit, hcommitted⟩ := ih hnodup chunk
      have hand (a : ℕ) : a ∈ i :: arenas ∧ chunk.Decommits ok a ↔ a ∈ arenas ∧ chunk.Decommits ok a := by
        rw [mem_cons, or_and_right, or_iff_right]
        rintro ⟨rfl, hdec'⟩
        exact hdec hdec'
      refine ⟨hhead, hlast, hfree, fun a ha => hheader a ((hand a).not.1 ha), fun a => ?_, ?_⟩
      · rw [hbit, hand]
      · rw [hcommitted, filter_cons, if_neg (by simpa using hdec)]

/-- Once an arena of the list is decommitted, so are those after it. -/
def DecommitsEnd (chunk : Chunk) (ok : ℕ → Bool) : Prop :=
  chunk.freeArenas.Pairwise fun a b => ok a = true → ok b = true

lemma exists_append {l : List ℕ} (h : l.Pairwise fun a b => ok a = true → ok b = true) :
    ∃ l₁ l₂, l = l₁ ++ l₂ ∧ (∀ a ∈ l₁, ok a = false) ∧ ∀ a ∈ l₂, ok a = true := by
  induction l with
  | nil => exact ⟨[], [], rfl, fun a ha => absurd ha not_mem_nil, fun a ha => absurd ha not_mem_nil⟩
  | cons b l ih =>
    obtain ⟨hb, hl⟩ := pairwise_cons.1 h
    cases hok : ok b with
    | true =>
      refine ⟨[], b :: l, rfl, fun a ha => absurd ha not_mem_nil, fun a ha => ?_⟩
      obtain rfl | ha := mem_cons.1 ha
      · exact hok
      · exact hb a ha hok
    | false =>
      obtain ⟨l₁, l₂, rfl, h₁, h₂⟩ := ih hl
      refine ⟨b :: l₁, l₂, rfl, fun a ha => ?_, h₂⟩
      obtain rfl | ha := mem_cons.1 ha
      · exact hok
      · exact h₁ a ha

lemma Ok.decommitFreeArenas (h : chunk.Ok held ∅ l) (hend : chunk.DecommitsEnd ok) :
    ∃ l', (chunk.decommitFreeArenasWithoutUnlocking ok contents).Ok held ∅ l' ∧
      (chunk.decommitFreeArenasWithoutUnlocking ok contents).lastDecommittedArenaOffset =
        chunk.lastDecommittedArenaOffset ∧
      (chunk.decommitFreeArenasWithoutUnlocking ok contents).numArenasFree = chunk.numArenasFree ∧
      (chunk.decommitFreeArenasWithoutUnlocking ok contents).numArenasFreeCommitted ≤ chunk.numArenasFreeCommitted := by
  rw [DecommitsEnd, h.freeArenas_eq] at hend
  obtain ⟨l₁, l₂, rfl, h₁, h₂⟩ := exists_append hend
  have hloop : Decommitted chunk ok (List.range ArenasPerChunk)
      (chunk.decommitFreeArenasWithoutUnlocking ok contents) :=
    decommitted_foldl ok contents (List.range ArenasPerChunk) nodup_range chunk
  generalize chunk.decommitFreeArenasWithoutUnlocking ok contents = chunk' at hloop ⊢
  obtain ⟨hhead, hlast, hfree, hheader, hbit, hcommitted⟩ := hloop
  have hdec (a : ℕ) : a ∈ List.range ArenasPerChunk ∧ chunk.Decommits ok a ↔ a ∈ l₂ := by
    rw [mem_range]
    constructor
    · rintro ⟨hlt, ⟨hbit, halloc⟩, hok⟩
      have hheld : a ∉ held := fun ha => Bool.false_ne_true (halloc ▸ (h.held a ha).2)
      have hmem := (h.mem a).2 ⟨hlt, hheld, Finset.notMem_empty a, hbit⟩
      refine (mem_append.1 hmem).resolve_left fun ha => ?_
      simp [h₁ a ha] at hok
    · intro ha
      have hmem := mem_append_right l₁ ha
      have hplace := (h.mem a).1 hmem
      exact ⟨hplace.1, ⟨hplace.2.2.2, h.list a hmem⟩, h₂ a ha⟩
  obtain ⟨-, hnodup₂, hdisj⟩ := nodup_append'.1 h.nodup
  have hlist {a : ℕ} (ha : a ∈ l₁) : a ∉ l₂ := hdisj ha
  have hsame {a : ℕ} (ha : a ∉ l₂) : chunk'.arenas a = chunk.arenas a := hheader a ((hdec a).not.2 ha)
  have hlength : ((List.range ArenasPerChunk).filter fun a => decide (chunk.Decommits ok a)).length = l₂.length := by
    refine ((perm_ext_iff_of_nodup (nodup_range.filter _) hnodup₂).2 fun a => ?_).length_eq
    rw [mem_filter, decide_eq_true_iff, hdec]
  have hset : chunk'.decommitted = chunk.decommitted ∪ l₂.toFinset := by
    ext a
    rw [mem_decommitted, Finset.mem_union, mem_decommitted, mem_toFinset, ← hdec, mem_range]
    refine (and_congr_right fun _ => hbit a).trans ?_
    simp [and_or_left]
  have hcard : chunk'.decommitted.card = chunk.decommitted.card + l₂.length := by
    rw [hset, Finset.card_union_of_disjoint, toFinset_card_of_nodup hnodup₂]
    refine Finset.disjoint_left.2 fun a ha hl => ?_
    have hplace := (h.mem a).1 (mem_append_right l₁ (mem_toFinset.1 hl))
    rw [(mem_decommitted.1 ha).2] at hplace
    exact Bool.noConfusion hplace.2.2.2
  have hlen := h.length
  rw [List.length_append] at hlen
  refine ⟨l₁, ?_, hlast, hfree, hcommitted ▸ Nat.sub_le _ _⟩
  refine ⟨?_, ?_, (nodup_append'.1 h.nodup).1, fun a => ?_, fun a ha => ?_, ?_, fun a ha => ?_,
    fun a ha => absurd ha (Finset.notMem_empty a), fun a ha => ?_⟩
  · refine hhead ▸ h.beginsWith.left.congr fun a ha => ?_
    exact congrArg ArenaHeader.next (hsame (hlist ha))
  · refine Eq.trans ?_ hcommitted.symm
    rw [hlength]
    omega
  · have hclear : chunk'.decommittedArenas a = false ↔ chunk.decommittedArenas a = false ∧ a ∉ l₂ := by
      rw [← Bool.not_eq_true, hbit, hdec, not_or, Bool.not_eq_true]
    have hmem := h.mem a
    rw [mem_append] at hmem
    rw [hclear]
    constructor
    · intro ha
      obtain ⟨hlt, hheld, hdetached, hbit⟩ := hmem.1 (.inl ha)
      exact ⟨hlt, hheld, hdetached, hbit, hlist ha⟩
    · rintro ⟨hlt, hheld, hdetached, hbit, hnot⟩
      exact (hmem.2 ⟨hlt, hheld, hdetached, hbit⟩).resolve_right hnot
  · refine ⟨?_, Finset.notMem_empty a⟩
    rw [hset] at ha
    obtain ha | ha := Finset.mem_union.1 ha
    · exact (h.decommitted a ha).1
    · exact ((h.mem a).1 (mem_append_right l₁ (mem_toFinset.1 ha))).2.1
  · have hold := h.free
    rw [hfree, hcommitted, hcard, hlength]
    omega
  · have hnot : a ∉ l₂ := fun hl => ((h.mem a).1 (mem_append_right l₁ hl)).2.1 ha
    rw [hsame hnot]
    exact h.held a ha
  · rw [hsame (hlist ha)]
    exact h.list a (mem_append_left l₂ ha)

end Decommit

end SpiderMonkey.Gc.Chunk
