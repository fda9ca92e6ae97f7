import SpiderMonkey.Gc.ChunkSteps

/-!
# Arenas are handed out once

In every run in which the out-of-memory path decommits arenas at the end of the lists only, the places of the
arenas are right, and arenas are handed out that are in no other place (`chunks_sound`).  If the system call
fails for an arena that is further back in the list than one for which it succeeds, a decommitted arena is
handed out with its bit set (`not_sound_decommittedFirst`).
-/

namespace SpiderMonkey.Gc.GCRuntime

open List Function

variable {s s' s₁ : GCRuntime} {c a : ℕ}

/-! ## Fetching -/

structure Fetched (s s₁ : GCRuntime) (c a : ℕ) : Prop where
  touches : Touches s s₁ c
  held : s₁.held = s.held
  detached : s₁.detached = s.detached
  ok : ∃ l, (s₁.chunks c).Ok (s.held c) (insert a (s.detached c)) l
  last : (s₁.chunks c).lastDecommittedArenaOffset ≤ ArenasPerChunk
  notDetached : a ∉ s.detached c
  bit : (s₁.chunks c).decommittedArenas a = false
  free : (s₁.chunks c).numArenasFree + 1 = (s.chunks c).numArenasFree
  count : s.numArenasFreeCommitted + (s₁.chunks c).numArenasFreeCommitted ≤
    s₁.numArenasFreeCommitted + (s.chunks c).numArenasFreeCommitted
  lt : s₁.numArenasFreeCommitted < 2 ^ 32

namespace Fetched

lemma mem_lt (h : Fetched s s₁ c a) : a < ArenasPerChunk := by
  obtain ⟨l, hl⟩ := h.ok
  exact (hl.detached a (Finset.mem_insert_self _ _)).1

lemma notHeld (h : Fetched s s₁ c a) : a ∉ s.held c := by
  obtain ⟨l, hl⟩ := h.ok
  exact hl.not_mem_held (Finset.mem_insert_self _ _)

end Fetched

lemma touches_setChunk (s : GCRuntime) (c : ℕ) (chunk : Chunk) : Touches s (s.setChunk c chunk) c where
  chunks x hx := update_of_ne hx _ _
  held _ _ := rfl
  detached _ _ := rfl
  available := rfl
  full := rfl
  empty := rfl

@[simp] lemma setChunk_chunks (s : GCRuntime) (c : ℕ) (chunk : Chunk) : (s.setChunk c chunk).chunks c = chunk :=
  update_self _ _ _

lemma fetchNextFreeArena_spec (hok : s.ChunkOk c) (hpos : 0 < (s.chunks c).numArenasFreeCommitted)
    (hle : (s.chunks c).numArenasFreeCommitted ≤ s.numArenasFreeCommitted)
    (hlt : s.numArenasFreeCommitted < 2 ^ 32) :
    ∃ a s₁, s.fetchNextFreeArena c = some (a, s₁) ∧ Fetched s s₁ c a := by
  obtain ⟨⟨l, hl⟩, hlast⟩ := hok
  cases l with
  | nil =>
    have hzero : 0 = (s.chunks c).numArenasFreeCommitted := hl.length
    omega
  | cons a l =>
    obtain ⟨chunk', hfetch, hl', hcommitted, hfree, hbit⟩ := hl.fetchNextFreeArena
    have hcount : (s.numArenasFreeCommitted + (2 ^ 32 - 1)) % 2 ^ 32 = s.numArenasFreeCommitted - 1 := by omega
    have hlast' : chunk'.lastDecommittedArenaOffset = (s.chunks c).lastDecommittedArenaOffset := by
      rw [Chunk.fetchNextFreeArena, hl.beginsWith.1] at hfetch
      obtain rfl := (Prod.mk.inj (Option.some.inj hfetch)).2
      rfl
    refine ⟨a, (s.setChunk c chunk').updateOnFreeArenaAlloc, ?_, ⟨fun x hx => update_of_ne hx _ _,
      fun _ _ => rfl, fun _ _ => rfl, rfl, rfl, rfl⟩, rfl, rfl, ⟨l, ?_⟩, ?_, ?_, ?_, ?_, ?_, ?_⟩
    · rw [fetchNextFreeArena, hfetch]
      rfl
    · exact (setChunk_chunks s c chunk').symm ▸ hl'
    · exact (setChunk_chunks s c chunk').symm ▸ hlast' ▸ hlast
    · exact ((hl.mem a).1 mem_cons_self).2.2.1
    · exact (setChunk_chunks s c chunk').symm ▸ hbit
    · exact (setChunk_chunks s c chunk').symm ▸ hfree
    · dsimp only [updateOnFreeArenaAlloc]
      rw [setChunk_chunks]
      change s.numArenasFreeCommitted + chunk'.numArenasFreeCommitted ≤
        (s.numArenasFreeCommitted + (2 ^ 32 - 1)) % 2 ^ 32 + (s.chunks c).numArenasFreeCommitted
      omega
    · exact Nat.mod_lt _ (Nat.two_pow_pos 32)

lemma fetchNextDecommittedArena_spec (hok : s.ChunkOk c) (hzero : (s.chunks c).numArenasFreeCommitted = 0)
    (hpos : 0 < (s.chunks c).numArenasFree) (hlt : s.numArenasFreeCommitted < 2 ^ 32) :
    ∃ a s₁, (s.chunks c).findDecommittedArenaOffset = some a ∧ s.fetchNextDecommittedArena c = some (a, s₁) ∧
      Fetched s s₁ c a := by
  obtain ⟨⟨l, hl⟩, hlast⟩ := hok
  obtain rfl : l = [] := length_eq_zero_iff.1 (hl.length.trans hzero)
  obtain ⟨a, chunk', hfind, hfetch, ha, hl', hlast', hcommitted, hfree, hbit⟩ := hl.fetchNextDecommittedArena hpos hlast
  refine ⟨a, s.setChunk c chunk', hfind, ?_, touches_setChunk s c chunk', rfl, rfl, ⟨[], ?_⟩, ?_,
    (hl.decommitted a ha).2, ?_, ?_, ?_, hlt⟩
  · rw [fetchNextDecommittedArena, hfetch]
    rfl
  · simp [hl']
  · simp [hlast']
  · simp [hbit]
  · simp [hfree]
  · rw [setChunk_chunks, hcommitted]
    exact le_rfl

lemma allocateArena_spec (hok : s.ChunkOk c) (hpos : 0 < (s.chunks c).numArenasFree)
    (hle : (s.chunks c).numArenasFreeCommitted ≤ s.numArenasFreeCommitted)
    (hlt : s.numArenasFreeCommitted < 2 ^ 32) :
    ∃ a s₁, s.allocateArena c = some (a, (s₁.setChunk c ((s₁.chunks c).initArena a)).updateChunkListAfterAlloc c) ∧
      Fetched s s₁ c a := by
  rw [allocateArena]
  by_cases hcommitted : 0 < (s.chunks c).numArenasFreeCommitted
  · obtain ⟨a, s₁, hfetch, hs₁⟩ := fetchNextFreeArena_spec hok hcommitted hle hlt
    rw [if_pos hcommitted, hfetch]
    exact ⟨a, s₁, rfl, hs₁⟩
  · obtain ⟨a, s₁, -, hfetch, hs₁⟩ := fetchNextDecommittedArena_spec hok (Nat.eq_zero_of_not_pos hcommitted) hpos hlt
    rw [if_neg hcommitted, hfetch]
    exact ⟨a, s₁, rfl, hs₁⟩

/-! ## The arena is held or detached -/

lemma hold_updateChunkListAfterAlloc (s : GCRuntime) (c a : ℕ) :
    (s.updateChunkListAfterAlloc c).hold c a = (s.hold c a).updateChunkListAfterAlloc c := by
  rw [updateChunkListAfterAlloc, updateChunkListAfterAlloc]
  exact apply_ite (fun s : GCRuntime => s.hold c a) _ _ _

lemma detach_updateChunkListAfterAlloc (s : GCRuntime) (c a : ℕ) :
    (s.updateChunkListAfterAlloc c).detach c a = (s.detach c a).updateChunkListAfterAlloc c := by
  rw [updateChunkListAfterAlloc, updateChunkListAfterAlloc]
  exact apply_ite (fun s : GCRuntime => s.detach c a) _ _ _

namespace Fetched

variable (h : Fetched s s₁ c a)
include h

lemma touches_hold : Touches s ((s₁.setChunk c ((s₁.chunks c).initArena a)).hold c a) c where
  chunks x hx := (update_of_ne hx _ _).trans (h.touches.chunks x hx)
  held x hx := (update_of_ne hx _ _).trans (h.touches.held x hx)
  detached := h.touches.detached
  available := h.touches.available
  full := h.touches.full
  empty := h.touches.empty

lemma touches_detach : Touches s (s₁.detach c a) c where
  chunks := h.touches.chunks
  held := h.touches.held
  detached x hx := (update_of_ne hx _ _).trans (h.touches.detached x hx)
  available := h.touches.available
  full := h.touches.full
  empty := h.touches.empty

lemma chunkOk_hold : ((s₁.setChunk c ((s₁.chunks c).initArena a)).hold c a).ChunkOk c := by
  obtain ⟨l, hl⟩ := h.ok
  have hinit := hl.initArena (Finset.mem_insert_self a (s.detached c))
  rw [Finset.erase_insert h.notDetached] at hinit
  rw [ChunkOk]
  dsimp only [hold, setChunk]
  rw [update_self, update_self, h.held, h.detached]
  exact ⟨⟨l, hinit⟩, h.last⟩

lemma chunkOk_detach : (s₁.detach c a).ChunkOk c := by
  rw [ChunkOk]
  dsimp only [detach]
  rw [update_self, h.held, h.detached]
  exact ⟨h.ok, h.last⟩

end Fetched

namespace Inv

lemma allocateInBackground (h : s.Inv) (hc : c ∉ s.pools) (contents : ℕ → ArenaHeader) :
    (s.allocateInBackground c contents).Inv := by
  have hpools : (s.allocateInBackground c contents).pools.Perm (c :: s.pools) := perm_middle
  have hchunks {x : ℕ} (hx : x ∈ s.pools) : (s.allocateInBackground c contents).chunks x = s.chunks x :=
    update_of_ne (ne_of_mem_of_not_mem hx hc) _ _
  have hself : (s.allocateInBackground c contents).chunks c = Chunk.decommitAllArenas contents := update_self _ _ _
  have hmem {x : ℕ} (hx : x ∈ s.availableChunks ∨ x ∈ s.fullChunks ∨ x ∈ s.emptyChunks) : x ∈ s.pools := by
    simpa [pools] using hx
  refine ⟨hpools.nodup_iff.2 (nodup_cons.2 ⟨hc, h.nodup⟩), fun x hx => ?_, fun x hx => ?_, fun x hx => ?_,
    fun x hx => ?_, fun x hx => ?_, ?_, h.lt⟩
  · obtain rfl | hx := mem_cons.1 (hpools.mem_iff.1 hx)
    · obtain ⟨hheld, hdetached⟩ := h.outside x hc
      rw [ChunkOk, hself]
      refine ⟨⟨[], ?_⟩, Nat.zero_le _⟩
      dsimp only [GCRuntime.allocateInBackground, setChunk]
      rw [hheld, hdetached]
      exact Chunk.ok_decommitAllArenas contents
    · rw [ChunkOk, hchunks hx]
      exact h.ok x hx
  · rw [hchunks (hmem (.inl hx))]
    exact h.available x hx
  · rw [hchunks (hmem (.inr (.inl hx)))]
    exact h.full x hx
  · obtain rfl | hx := mem_cons.1 hx
    · rw [hself]
      exact ⟨rfl, h.outside x hc⟩
    · rw [hchunks (hmem (.inr (.inr hx)))]
      exact h.empty x hx
  · exact h.outside x fun hmem' => hx (hpools.mem_iff.2 (mem_cons_of_mem c hmem'))
  · have hset : (s.allocateInBackground c contents).pools.toFinset = insert c s.pools.toFinset := by
      simp [toFinset_eq_of_perm _ _ hpools]
    rw [committed, hset, Finset.sum_insert (by rwa [mem_toFinset]), hself]
    refine le_trans (le_of_eq ?_) h.count
    rw [committed, show (Chunk.decommitAllArenas contents).numArenasFreeCommitted = 0 from rfl, Nat.zero_add]
    exact Finset.sum_congr rfl fun x hx => by rw [hchunks (mem_toFinset.1 hx)]

end Inv

/-! ## Allocation -/

/-- The chunk is the first of the empty ones. -/
def takeEmptyChunk (s : GCRuntime) (c : ℕ) (rest : List ℕ) (contents : ℕ → ArenaHeader) : GCRuntime :=
  { s.setChunk c (.decommitAllArenas contents) with emptyChunks := rest, availableChunks := c :: s.availableChunks }

/-- The chunk can give an arena, after which the pools are right. -/
structure Picked (s s₀ : GCRuntime) (c : ℕ) : Prop where
  ok : s₀.ChunkOk c
  free : 0 < (s₀.chunks c).numArenasFree
  le : (s₀.chunks c).numArenasFreeCommitted ≤ s₀.numArenasFreeCommitted
  lt : s₀.numArenasFreeCommitted < 2 ^ 32
  held : s₀.held = s.held
  detached : s₀.detached = s.detached
  inv : ∀ s₁ a, Fetched s₀ s₁ c a →
    (((s₁.setChunk c ((s₁.chunks c).initArena a)).updateChunkListAfterAlloc c).hold c a).Inv

namespace Inv

lemma picked_available (h : s.Inv) (hc : c ∈ s.availableChunks) : Picked s s c := by
  have hmem := mem_pools (.inl hc : c ∈ s.availableChunks ∨ c ∈ s.fullChunks)
  refine ⟨h.ok c hmem, (h.available c hc).1, h.committed_le hmem, h.lt, rfl, rfl, fun s₁ a hs₁ => ?_⟩
  have hself : (((s₁.setChunk c ((s₁.chunks c).initArena a)).hold c a).chunks c) = (s₁.chunks c).initArena a :=
    update_self _ _ _
  rw [hold_updateChunkListAfterAlloc]
  refine h.afterAlloc hc hs₁.touches_hold hs₁.chunkOk_hold ?_ ?_ hs₁.lt
  · rw [hself]
    exact hs₁.free
  · rw [hself]
    exact hs₁.count

lemma picked_empty (h : s.Inv) {rest : List ℕ} (hempty : s.emptyChunks = c :: rest)
    (contents : ℕ → ArenaHeader) : Picked s (s.takeEmptyChunk c rest contents) c := by
  set s₀ := s.takeEmptyChunk c rest contents
  have hmemEmpty : c ∈ s.emptyChunks := hempty ▸ mem_cons_self
  have hmem : c ∈ s.pools := mem_append_right _ hmemEmpty
  obtain ⟨hcommitted, hheld, hdetached⟩ := h.empty c hmemEmpty
  have hchunk : s₀.chunks c = Chunk.decommitAllArenas contents := update_self _ _ _
  have hnodup := h.nodup
  rw [pools, hempty, nodup_append'] at hnodup
  obtain ⟨-, hnodupEmpty, hdisj⟩ := hnodup
  have hnot : c ∉ s.availableChunks ∧ c ∉ s.fullChunks := by
    simpa using fun hmem => hdisj hmem mem_cons_self
  refine ⟨⟨⟨[], ?_⟩, ?_⟩, ?_, ?_, h.lt, rfl, rfl, fun s₁ a hs₁ => ?_⟩
  · rw [hchunk, show s₀.held c = ∅ from hheld, show s₀.detached c = ∅ from hdetached]
    exact Chunk.ok_decommitAllArenas contents
  · rw [hchunk]
    exact Nat.zero_le _
  · rw [hchunk]
    exact show 0 < ArenasPerChunk by decide
  · rw [hchunk]
    exact Nat.zero_le _
  · have hself : (((s₁.setChunk c ((s₁.chunks c).initArena a)).hold c a).chunks c) = (s₁.chunks c).initArena a :=
      update_self _ _ _
    have hfree := hs₁.free
    rw [hchunk, show (Chunk.decommitAllArenas contents).numArenasFree = ArenasPerChunk from rfl] at hfree
    have hfree' : ((s₁.chunks c).initArena a).numArenasFree + 1 = ArenasPerChunk := hfree
    have hpos : ((s₁.chunks c).initArena a).numArenasFree ≠ 0 := by
      rw [ArenasPerChunk] at hfree'
      omega
    rw [hold_updateChunkListAfterAlloc, updateChunkListAfterAlloc, hself, if_neg hpos]
    have ht := hs₁.touches_hold
    have hother (x : ℕ) (hx : x ≠ c) : s₀.chunks x = s.chunks x := update_of_ne hx _ _
    refine h.change hmem ⟨fun x hx => (ht.chunks x hx).trans (hother x hx), ht.held, ht.detached, ?_,
      fun x hx hin => ?_, fun x _ hin => ht.full ▸ hin, fun x hx hin => ?_⟩ hs₁.chunkOk_hold (fun _ => ?_)
      (fun hin => ?_) (fun hin => ?_) ?_ hs₁.lt
    · rw [ht.pools_eq, pools, pools, hempty]
      exact perm_middle.symm
    · rw [ht.available] at hin
      exact mem_of_ne_of_mem hx hin
    · rw [ht.empty] at hin
      exact hempty ▸ mem_cons_of_mem c hin
    · rw [hself]
      omega
    · exact absurd (ht.full ▸ hin) hnot.2
    · rw [ht.empty] at hin
      exact absurd hin (nodup_cons.1 hnodupEmpty).1
    · have hcount := hs₁.count
      rw [hchunk] at hcount
      rw [hself, hcommitted]
      exact hcount

lemma pickChunk_spec (h : s.Inv) {fresh : Option ℕ} (hfresh : ∀ c, fresh = some c → c ∉ s.pools)
    (contents : ℕ → ArenaHeader) {s₀ : GCRuntime} (hpick : s.pickChunk fresh contents = some (c, s₀)) :
    Picked s s₀ c := by
  unfold pickChunk at hpick
  split at hpick
  next c' rest hav =>
    cases hpick
    exact h.picked_available (hav ▸ mem_cons_self)
  next hav =>
    unfold getOrAllocChunk at hpick
    split at hpick
    next c' rest hempty =>
      cases hpick
      exact h.picked_empty hempty contents
    next hempty =>
      rw [Option.map_map] at hpick
      obtain ⟨c', hc', hpick⟩ := Option.map_eq_some_iff.1 hpick
      obtain ⟨rfl, rfl⟩ := Prod.mk.inj hpick
      -- as if the chunk had been allocated in the background
      have hnew := (h.allocateInBackground (hfresh c' hc') contents).picked_empty rfl contents
      have heq : (s.allocateInBackground c' contents).takeEmptyChunk c' s.emptyChunks contents =
          { s.setChunk c' (.decommitAllArenas contents) with availableChunks := c' :: s.availableChunks } := by
        dsimp only [takeEmptyChunk, GCRuntime.allocateInBackground, setChunk]
        simp
      rw [heq] at hnew
      exact ⟨hnew.ok, hnew.free, hnew.le, hnew.lt, rfl, rfl, hnew.inv⟩

end Inv

/-! ## Freeing -/

lemma unhold_updateChunkListAfterFree (s : GCRuntime) (c a : ℕ) (contents : ℕ → ArenaHeader) :
    (s.updateChunkListAfterFree c contents).unhold c a = (s.unhold c a).updateChunkListAfterFree c contents := by
  rw [updateChunkListAfterFree, updateChunkListAfterFree]
  exact (apply_ite (fun s : GCRuntime => s.unhold c a) _ _ _).trans
    (congrArg (ite _ _) (apply_ite (fun s : GCRuntime => s.unhold c a) _ _ _))

lemma reattach_updateChunkListAfterFree (s : GCRuntime) (c a : ℕ) (contents : ℕ → ArenaHeader) :
    (s.updateChunkListAfterFree c contents).reattach c a = (s.reattach c a).updateChunkListAfterFree c contents := by
  rw [updateChunkListAfterFree, updateChunkListAfterFree]
  exact (apply_ite (fun s : GCRuntime => s.reattach c a) _ _ _).trans
    (congrArg (ite _ _) (apply_ite (fun s : GCRuntime => s.reattach c a) _ _ _))

namespace Inv

section

variable (h : s.Inv)

include h

lemma releaseArena (ha : a ∈ s.held c) (hlt : s.numArenasFreeCommitted + 1 < 2 ^ 32)
    (contents : ℕ → ArenaHeader) : ((s.releaseArena c a contents).unhold c a).Inv := by
  have hc := h.mem_of_used (.inl ha)
  obtain ⟨⟨l, hl⟩, hlast⟩ := h.ok c (mem_pools hc)
  have hfree := (hl.setAsNotAllocated ha).addArenaToFreeList (Finset.mem_insert_self a (s.detached c))
  rw [Finset.erase_insert fun hd => hl.not_mem_held hd ha] at hfree
  rw [GCRuntime.releaseArena, unhold_updateChunkListAfterFree]
  set s₁ := ((s.setChunk c ((s.chunks c).setAsNotAllocated a)).addArenaToFreeList c a).unhold c a with hs₁
  have hchunk : s₁.chunks c = ((s.chunks c).setAsNotAllocated a).addArenaToFreeList a := by
    rw [hs₁]
    dsimp only [unhold, addArenaToFreeList, updateOnArenaFree, setChunk]
    simp
  have hheld : s₁.held c = (s.held c).erase a := update_self _ _ _
  have hcount : s₁.numArenasFreeCommitted = s.numArenasFreeCommitted + 1 := Nat.mod_eq_of_lt hlt
  have ht : Touches s s₁ c := by
    refine ⟨fun x hx => ?_, fun x hx => update_of_ne hx _ _, fun _ _ => rfl, rfl, rfl, rfl⟩
    rw [hs₁]
    dsimp only [unhold, addArenaToFreeList, updateOnArenaFree, setChunk]
    simp [hx]
  refine h.afterFree hc ht ⟨⟨a :: l, ?_⟩, ?_⟩ ?_ ?_ (hcount ▸ hlt) contents
  · rw [hchunk, hheld]
    exact hfree
  · rw [hchunk]
    exact hlast
  · rw [hchunk]
    rfl
  · rw [hchunk, hcount]
    change s.numArenasFreeCommitted + ((s.chunks c).numArenasFreeCommitted + 1) ≤ _
    omega

lemma finishDecommit (ha : a ∈ s.detached c) (ok : Bool)
    (hlt : ok = false → s.numArenasFreeCommitted + 1 < 2 ^ 32) (header : ArenaHeader)
    (contents : ℕ → ArenaHeader) : ((s.finishDecommit c a ok header contents).reattach c a).Inv := by
  have hc := h.mem_of_used (.inr ha)
  obtain ⟨⟨l, hl⟩, hlast⟩ := h.ok c (mem_pools hc)
  rw [GCRuntime.finishDecommit, reattach_updateChunkListAfterFree]
  cases ok with
  | true =>
    rw [if_pos rfl]
    set s₁ := ((s.setChunk c ((s.chunks c).setHeader a header)).addArenaToDecommittedList c a).reattach c a with hs₁
    have hchunk : s₁.chunks c = ((s.chunks c).setHeader a header).addArenaToDecommittedList a := by
      rw [hs₁]
      dsimp only [reattach, addArenaToDecommittedList, setChunk]
      simp
    have hdetached : s₁.detached c = (s.detached c).erase a := update_self _ _ _
    have ht : Touches s s₁ c := by
      refine ⟨fun x hx => ?_, fun _ _ => rfl, fun x hx => update_of_ne hx _ _, rfl, rfl, rfl⟩
      rw [hs₁]
      dsimp only [reattach, addArenaToDecommittedList, setChunk]
      simp [hx]
    refine h.afterFree hc ht ⟨⟨l, ?_⟩, ?_⟩ ?_ ?_ h.lt contents
    · rw [hchunk, hdetached]
      exact hl.decommitOne ha header
    · rw [hchunk]
      exact hlast
    · rw [hchunk]
      rfl
    · rw [hchunk]
      exact le_rfl
  | false =>
    rw [if_neg Bool.false_ne_true]
    set s₁ := (s.addArenaToFreeList c a).reattach c a
    have hcount : s₁.numArenasFreeCommitted = s.numArenasFreeCommitted + 1 := Nat.mod_eq_of_lt (hlt rfl)
    have hchunk : s₁.chunks c = (s.chunks c).addArenaToFreeList a := update_self _ _ _
    have hdetached : s₁.detached c = (s.detached c).erase a := update_self _ _ _
    have ht : Touches s s₁ c := ⟨fun x hx => update_of_ne hx _ _, fun _ _ => rfl,
      fun x hx => update_of_ne hx _ _, rfl, rfl, rfl⟩
    refine h.afterFree hc ht ⟨⟨a :: l, ?_⟩, ?_⟩ ?_ ?_ (hcount ▸ hlt rfl) contents
    · rw [hchunk, hdetached]
      exact hl.addArenaToFreeList ha
    · rw [hchunk]
      exact hlast
    · rw [hchunk]
      rfl
    · rw [hchunk, hcount]
      change s.numArenasFreeCommitted + ((s.chunks c).numArenasFreeCommitted + 1) ≤ _
      omega

lemma setNext (ha : a ∈ s.held c) (next : Option ℕ) :
    (s.setChunk c ((s.chunks c).setHeader a ⟨((s.chunks c).arenas a).allocated, next⟩)).Inv := by
  have hc := h.mem_of_used (.inl ha)
  obtain ⟨⟨l, hl⟩, hlast⟩ := h.ok c (mem_pools hc)
  obtain ⟨-, hnotempty⟩ := h.disjoint (c := c)
  refine h.change (mem_pools hc) (touches_setChunk _ _ _).changes ⟨⟨l, ?_⟩, ?_⟩ (fun hin => ?_) (fun hin => ?_)
    (fun hin => absurd hin (hnotempty hc)) ?_ h.lt
  · rw [setChunk_chunks]
    exact hl.setNext ha next
  · rw [setChunk_chunks]
    exact hlast
  · rw [setChunk_chunks]
    exact h.available c hin
  · rw [setChunk_chunks]
    exact h.full c hin
  · rw [setChunk_chunks]
    exact le_rfl

lemma startDecommit (hc : c ∈ s.availableChunks) (hpos : 0 < (s.chunks c).numArenasFreeCommitted) :
    ∃ s', s.run (.startDecommit c) = some s' ∧ s'.Inv := by
  have hmem := mem_pools (.inl hc : c ∈ s.availableChunks ∨ c ∈ s.fullChunks)
  obtain ⟨a, s₁, hfetch, hs₁⟩ := fetchNextFreeArena_spec (h.ok c hmem) hpos (h.committed_le hmem) h.lt
  refine ⟨(s₁.updateChunkListAfterAlloc c).detach c a, ?_, ?_⟩
  · rw [run, GCRuntime.startDecommit, hfetch]
    rfl
  · rw [detach_updateChunkListAfterAlloc]
    exact h.afterAlloc hc hs₁.touches_detach hs₁.chunkOk_detach hs₁.free hs₁.count hs₁.lt

lemma allocateArena {fresh : Option ℕ} (hfresh : ∀ c, fresh = some c → c ∉ s.pools)
    (contents : ℕ → ArenaHeader) : ∃ s', s.run (.allocateArena fresh contents) = some s' ∧ s'.Inv := by
  rw [run]
  cases hpick : s.pickChunk fresh contents with
  | none => exact ⟨s, rfl, h⟩
  | some picked =>
    obtain ⟨c, s₀⟩ := picked
    have hs₀ := h.pickChunk_spec hfresh contents hpick
    obtain ⟨a, s₁, hallocate, hs₁⟩ := allocateArena_spec hs₀.ok hs₀.free hs₀.le hs₀.lt
    refine ⟨_, ?_, hs₀.inv s₁ a hs₁⟩
    dsimp only
    rw [hallocate]
    rfl

/-! ## All chunks -/

lemma of_chunks {chunks : ℕ → Chunk} (hsame : ∀ c ∉ s.availableChunks, chunks c = s.chunks c)
    (hav : ∀ c ∈ s.availableChunks, ∃ l, (chunks c).Ok (s.held c) (s.detached c) l ∧
      (chunks c).lastDecommittedArenaOffset = (s.chunks c).lastDecommittedArenaOffset ∧
      (chunks c).numArenasFree = (s.chunks c).numArenasFree ∧
      (chunks c).numArenasFreeCommitted ≤ (s.chunks c).numArenasFreeCommitted) :
    Inv { s with chunks := chunks } := by
  have hfull (c : ℕ) (hf : c ∈ s.fullChunks) : chunks c = s.chunks c := hsame c fun ha => h.disjoint.1 ha hf
  have hempty (c : ℕ) (he : c ∈ s.emptyChunks) : chunks c = s.chunks c := hsame c fun ha => h.disjoint.2 (.inl ha) he
  refine ⟨h.nodup, fun c hc => ?_, fun c hc => ?_, fun c hc => ?_, fun c hc => ?_, h.outside, ?_, h.lt⟩
  · by_cases ha : c ∈ s.availableChunks
    · obtain ⟨l, hl, hlast, -⟩ := hav c ha
      exact ⟨⟨l, hl⟩, hlast ▸ (h.ok c hc).2⟩
    · rw [ChunkOk]
      dsimp only
      rw [hsame c ha]
      exact h.ok c hc
  · obtain ⟨l, -, -, hfree, -⟩ := hav c hc
    dsimp only
    rw [hfree]
    exact h.available c hc
  · dsimp only
    rw [hfull c hc]
    exact h.full c hc
  · dsimp only
    rw [hempty c hc]
    exact h.empty c hc
  · refine le_trans (Finset.sum_le_sum fun c _ => ?_) h.count
    by_cases ha : c ∈ s.availableChunks
    · obtain ⟨l, -, -, -, hle⟩ := hav c ha
      exact hle
    · simp [hsame, ha]

lemma decommitFreeArenas (hdetached : ∀ c, s.detached c = ∅) {ok : ℕ → ℕ → Bool}
    (hend : ∀ c ∈ s.availableChunks, (s.chunks c).DecommitsEnd (ok c)) (contents : ℕ → ℕ → ArenaHeader) :
    (s.decommitFreeArenasWithoutUnlocking ok contents).Inv := by
  refine h.of_chunks (fun c hc => if_neg hc) fun c hc => ?_
  obtain ⟨⟨l, hl⟩, -⟩ := h.ok c (mem_pools (.inl hc))
  rw [hdetached c] at hl ⊢
  rw [if_pos hc]
  exact hl.decommitFreeArenas (hend c hc)

lemma of_perm {l : List ℕ} (hl : l.Perm s.availableChunks) : Inv { s with availableChunks := l } := by
  have hpools : (pools { s with availableChunks := l }).Perm s.pools := (hl.append_right _).append_right _
  refine ⟨hpools.nodup_iff.2 h.nodup, fun c hc => h.ok c (hpools.mem_iff.1 hc),
    fun c hc => h.available c (hl.mem_iff.1 hc), h.full, h.empty, fun c hc => h.outside c (mt hpools.mem_iff.2 hc),
    ?_, h.lt⟩
  rw [committed, toFinset_eq_of_perm _ _ hpools]
  exact h.count

lemma of_sublist {l : List ℕ} (hl : l.Sublist s.emptyChunks) : Inv { s with emptyChunks := l } := by
  have hpools : (pools { s with emptyChunks := l }).Sublist s.pools := List.Sublist.append_left hl _
  refine ⟨h.nodup.sublist hpools, fun c hc => h.ok c (hpools.subset hc), h.available, h.full,
    fun c hc => h.empty c (hl.subset hc), fun c hc => ?_, ?_, h.lt⟩
  · by_cases hmem : c ∈ s.pools
    · rw [pools, mem_append] at hmem
      exact (h.empty c (hmem.resolve_left fun hleft => hc (mem_append_left _ hleft))).2
    · exact h.outside c hmem
  · refine le_trans (Finset.sum_le_sum_of_subset fun c hc => ?_) h.count
    exact mem_toFinset.2 (hpools.subset (mem_toFinset.1 hc))

end

end Inv

/-! ## Sorting and expiry -/

lemma merge_perm (numArenasFree : ℕ → ℕ) (front back : List ℕ) :
    (merge numArenasFree front back).Perm (front ++ back) := by
  fun_induction merge numArenasFree front back with
  | case1 back => exact .refl _
  | case2 front hne => rw [append_nil]
  | case3 f front b back hle ih => exact ih.cons f
  | case4 f front b back hle ih => exact (ih.cons b).trans perm_middle.symm

lemma mergeSort_perm (numArenasFree : ℕ → ℕ) (list : List ℕ) (count : ℕ) :
    (mergeSort numArenasFree list count).Perm list := by
  fun_induction mergeSort numArenasFree list count with
  | case1 list count hlt => exact .refl _
  | case2 list count hlt ih₁ ih₂ =>
    have hperm := (merge_perm numArenasFree _ _).trans (ih₁.append ih₂)
    rwa [take_append_drop] at hperm

lemma expire_spec (numFreeCommitted : ℕ → ℕ) (minEmptyChunkCount : ℕ) (chunks : List ℕ) (count : ℕ)
    (hzero : ∀ c ∈ chunks, numFreeCommitted c = 0) (hlt : count < 2 ^ 32) :
    (expire numFreeCommitted minEmptyChunkCount chunks count).1.Sublist chunks ∧
      (expire numFreeCommitted minEmptyChunkCount chunks count).2 = count := by
  induction chunks with
  | nil => exact ⟨.refl _, rfl⟩
  | cons c chunks ih =>
    rw [expire]
    split_ifs
    · have hcount : (count + (2 ^ 32 - numFreeCommitted c)) % 2 ^ 32 = count := by
        rw [hzero c mem_cons_self]
        omega
      rw [hcount]
      obtain ⟨hsub, heq⟩ := ih fun c hc => hzero c (mem_cons_of_mem _ hc)
      exact ⟨hsub.cons c, heq⟩
    · exact ⟨.refl _, rfl⟩

/-! ## Runs -/

/-- The counter does not overflow, and what the out-of-memory path decommits is at the end of the lists. -/
def Orderly (s : GCRuntime) : Action → Prop
  | .releaseArena _ _ _ => s.numArenasFreeCommitted + 1 < 2 ^ 32
  | .finishDecommit _ _ ok _ _ => ok = false → s.numArenasFreeCommitted + 1 < 2 ^ 32
  | .decommitFreeArenasWithoutUnlocking ok _ => ∀ c ∈ s.availableChunks, (s.chunks c).DecommitsEnd (ok c)
  | _ => True

theorem Inv.run (h : s.Inv) {action : Action} (henabled : s.Enabled action) (horderly : s.Orderly action) :
    ∃ s', s.run action = some s' ∧ s'.Inv := by
  cases action with
  | allocateArena fresh contents => exact h.allocateArena henabled contents
  | setNext c a next => exact ⟨_, rfl, h.setNext henabled next⟩
  | releaseArena c a contents => exact ⟨_, rfl, h.releaseArena henabled horderly contents⟩
  | startDecommit c => exact h.startDecommit henabled.1 henabled.2
  | finishDecommit c a ok header contents =>
    exact ⟨_, rfl, h.finishDecommit henabled ok horderly header contents⟩
  | decommitFreeArenasWithoutUnlocking ok contents => exact ⟨_, rfl, h.decommitFreeArenas henabled horderly contents⟩
  | sort =>
    refine ⟨_, rfl, ?_⟩
    rw [sort]
    split_ifs
    · exact h
    · exact h.of_perm (mergeSort_perm _ _ _)
  | expireEmptyChunkPool minEmptyChunkCount =>
    refine ⟨_, rfl, ?_⟩
    obtain ⟨hsub, hcount⟩ := expire_spec (fun c => (s.chunks c).numArenasFreeCommitted) minEmptyChunkCount
      s.emptyChunks s.numArenasFreeCommitted (fun c hc => (h.empty c hc).1) h.lt
    rw [expireEmptyChunkPool, hcount]
    exact h.of_sublist hsub
  | freeEmptyChunks => exact ⟨_, rfl, h.of_sublist (nil_sublist _)⟩
  | allocateInBackground c contents => exact ⟨_, rfl, h.allocateInBackground henabled contents⟩

lemma Reachable.inv (h : Reachable Orderly s) : s.Inv := by
  induction h with
  | initial chunks => exact .initial chunks
  | step _ henabled hcondition hrun ih =>
    obtain ⟨s', hrun', hs'⟩ := ih.run henabled hcondition
    exact Option.some.inj (hrun.symm.trans hrun') ▸ hs'

/-! ## What holds in every run -/

def IsFree (s : GCRuntime) (c a : ℕ) : Prop := a < ArenasPerChunk ∧ a ∉ s.held c ∧ a ∉ s.detached c

/-- The list, the bitmap and the counters of a chunk say the same. -/
structure Agree (s : GCRuntime) (c : ℕ) : Prop where
  length : (s.chunks c).freeArenas.length = (s.chunks c).numArenasFreeCommitted
  nodup : (s.chunks c).freeArenas.Nodup
  list : ∀ a, a ∈ (s.chunks c).freeArenas ↔ s.IsFree c a ∧ (s.chunks c).decommittedArenas a = false
  bits : ∀ a < ArenasPerChunk, (s.chunks c).decommittedArenas a = true ↔ s.IsFree c a ∧ a ∉ (s.chunks c).freeArenas
  numArenasFree : (s.chunks c).numArenasFree = (s.chunks c).freeArenas.length + (s.chunks c).decommitted.card
  places : (s.held c).card + (s.detached c).card + (s.chunks c).numArenasFree = ArenasPerChunk
  disjoint : Disjoint (s.held c) (s.detached c)

structure Sound (s : GCRuntime) : Prop where
  agree : ∀ c ∈ s.pools, s.Agree c
  /-- No arena is handed out that is held, detached, or has its bit after that. -/
  handedOut : ∀ fresh contents, s.Enabled (.allocateArena fresh contents) → ∀ c s₀,
    s.pickChunk fresh contents = some (c, s₀) → ∃ a s', s₀.allocateArena c = some (a, s') ∧ s.IsFree c a ∧
      (s'.chunks c).decommittedArenas a = false
  detachedOnce : ∀ c, s.Enabled (.startDecommit c) → ∃ a s', s.startDecommit c = some (a, s') ∧ s.IsFree c a ∧
    (s'.chunks c).decommittedArenas a = false
  finds : ∀ c ∈ s.pools, (s.chunks c).numArenasFreeCommitted = 0 → 0 < (s.chunks c).numArenasFree →
    ∃ a ∈ (s.chunks c).decommitted, (s.chunks c).findDecommittedArenaOffset = some a
  /-- The counter of the runtime is not too small for what can be taken from it. -/
  count : s.committed ≤ s.numArenasFreeCommitted
  countOf : ∀ c ∈ s.pools, (s.chunks c).numArenasFreeCommitted ≤ s.numArenasFreeCommitted
  nodup : s.pools.Nodup
  available : ∀ c ∈ s.availableChunks, 0 < (s.chunks c).numArenasFree ∧ (s.chunks c).numArenasFree < ArenasPerChunk
  full : ∀ c ∈ s.fullChunks, (s.chunks c).numArenasFree = 0
  empty : ∀ c ∈ s.emptyChunks, (s.chunks c).numArenasFree = ArenasPerChunk ∧ (s.chunks c).numArenasFreeCommitted = 0
  used : ∀ c a, a ∈ s.held c ∨ a ∈ s.detached c → c ∈ s.availableChunks ∨ c ∈ s.fullChunks

lemma agree_of_ok {l : List ℕ} (hl : (s.chunks c).Ok (s.held c) (s.detached c) l) : s.Agree c := by
  have hlist := hl.freeArenas_eq
  have hfree (a : ℕ) : a ∈ l ↔ s.IsFree c a ∧ (s.chunks c).decommittedArenas a = false := by
    rw [hl.mem, IsFree, and_assoc, and_assoc]
  refine ⟨hlist ▸ hl.length, hlist ▸ hl.nodup, fun a => hlist ▸ hfree a, fun a ha => ?_, ?_, hl.card_eq, ?_⟩
  · rw [hlist, hfree]
    constructor
    · intro hbit
      have hplace := hl.decommitted a (Chunk.mem_decommitted.2 ⟨ha, hbit⟩)
      refine ⟨⟨ha, hplace⟩, fun hand => ?_⟩
      rw [hbit] at hand
      cases hand.2
    · rintro ⟨hfree, hnot⟩
      by_contra hbit
      exact hnot ⟨hfree, Bool.eq_false_iff.2 hbit⟩
  · rw [hlist, hl.length]
    exact hl.free
  · exact Finset.disjoint_left.2 fun a ha hd => hl.not_mem_held hd ha

theorem chunks_sound (h : Reachable Orderly s) : s.Sound := by
  have hinv := h.inv
  refine ⟨fun c hc => ?_, fun fresh contents henabled c s₀ hpick => ?_, fun c henabled => ?_, fun c hc hzero hpos => ?_,
    hinv.count, fun c hc => hinv.committed_le hc, hinv.nodup, hinv.available, hinv.full, fun c hc => ?_,
    fun c a ha => hinv.mem_of_used ha⟩
  · obtain ⟨⟨l, hl⟩, -⟩ := hinv.ok c hc
    exact agree_of_ok hl
  · have hs₀ := hinv.pickChunk_spec henabled contents hpick
    obtain ⟨a, s₁, hallocate, hs₁⟩ := allocateArena_spec hs₀.ok hs₀.free hs₀.le hs₀.lt
    have hnot := hs₁.notHeld
    have hnot' := hs₁.notDetached
    rw [hs₀.held] at hnot
    rw [hs₀.detached] at hnot'
    refine ⟨a, _, hallocate, ⟨hs₁.mem_lt, hnot, hnot'⟩, ?_⟩
    have hchunk : ((s₁.setChunk c ((s₁.chunks c).initArena a)).updateChunkListAfterAlloc c).chunks c =
        (s₁.chunks c).initArena a := by
      rw [updateChunkListAfterAlloc]
      split_ifs
      · exact setChunk_chunks _ _ _
      · exact setChunk_chunks _ _ _
    rw [hchunk]
    exact hs₁.bit
  · have hmem := mem_pools (.inl henabled.1 : c ∈ s.availableChunks ∨ c ∈ s.fullChunks)
    obtain ⟨a, s₁, hfetch, hs₁⟩ := fetchNextFreeArena_spec (hinv.ok c hmem) henabled.2 (hinv.committed_le hmem) hinv.lt
    refine ⟨a, s₁.updateChunkListAfterAlloc c, ?_, ⟨hs₁.mem_lt, hs₁.notHeld, hs₁.notDetached⟩, ?_⟩
    · rw [GCRuntime.startDecommit, hfetch]
      rfl
    · have hchunk : (s₁.updateChunkListAfterAlloc c).chunks c = s₁.chunks c := by
        rw [updateChunkListAfterAlloc]
        split_ifs <;> rfl
      rw [hchunk]
      exact hs₁.bit
  · obtain ⟨⟨l, hl⟩, hlast⟩ := hinv.ok c hc
    obtain rfl : l = [] := length_eq_zero_iff.1 (hl.length.trans hzero)
    obtain ⟨a, hfind, ha⟩ := hl.exists_findDecommitted hpos hlast
    exact ⟨a, ha, hfind⟩
  · obtain ⟨hzero, hheld, hdetached⟩ := hinv.empty c hc
    obtain ⟨⟨l, hl⟩, -⟩ := hinv.ok c (mem_append_right _ hc)
    have hcard := hl.card_eq
    rw [hheld, hdetached, Finset.card_empty, Nat.zero_add] at hcard
    exact ⟨hcard, hzero⟩

/-! ## Runs on one chunk -/

def noContents : ℕ → ArenaHeader := fun _ => ⟨false, none⟩

def start : GCRuntime := initial fun _ => .decommitAllArenas noContents

/-- The state after some steps, which are possible one after the other. -/
def after (s : GCRuntime) (actions : List Action) : GCRuntime :=
  actions.foldl (fun s action => (s.run action).getD s) s

/-- Three arenas, of which two are released. -/
def releasedTwo : List Action :=
  [.allocateArena (some 0) noContents, .allocateArena none noContents, .allocateArena none noContents,
    .releaseArena 0 0 noContents, .releaseArena 0 1 noContents]

example : ((start.after releasedTwo).chunks 0).freeArenas = [1, 0] := by decide

lemma Reachable.next {condition : GCRuntime → Action → Prop} (h : Reachable condition s) (action : Action)
    (henabled : s.Enabled action) (hcondition : condition s action) (hrun : (s.run action).isSome = true) :
    Reachable condition ((s.run action).getD s) := by
  obtain ⟨s', hs'⟩ := Option.isSome_iff_exists.1 hrun
  rw [hs', Option.getD_some]
  exact h.step henabled hcondition hs'

lemma reachable_releasedTwo {condition : GCRuntime → Action → Prop}
    (hcondition : ∀ s action, Orderly s action → condition s action) :
    Reachable condition (start.after releasedTwo) := by
  refine (((((Reachable.initial _).next (.allocateArena (some 0) noContents) ?_ ?_ rfl).next
    (.allocateArena none noContents) ?_ ?_ rfl).next (.allocateArena none noContents) ?_ ?_ rfl).next
    (.releaseArena 0 0 noContents) ?_ ?_ rfl).next (.releaseArena 0 1 noContents) ?_ ?_ rfl
  · exact fun c _ => not_mem_nil
  · exact hcondition _ _ trivial
  · exact nofun
  · exact hcondition _ _ trivial
  · exact nofun
  · exact hcondition _ _ trivial
  · exact show 0 ∈ ((start.after (releasedTwo.take 3)).held 0) by decide
  · exact hcondition _ _ (show (start.after (releasedTwo.take 3)).numArenasFreeCommitted + 1 < 2 ^ 32 by decide)
  · exact show 1 ∈ ((start.after (releasedTwo.take 4)).held 0) by decide
  · exact hcondition _ _ (show (start.after (releasedTwo.take 4)).numArenasFreeCommitted + 1 < 2 ^ 32 by decide)

/-- Both arenas are decommitted. -/
theorem chunks_sound_decommitBoth : ((start.after releasedTwo).decommitFreeArenasWithoutUnlocking
    (fun _ _ => true) fun _ => noContents).Sound := by
  refine chunks_sound ((reachable_releasedTwo fun _ _ h => h).next (.decommitFreeArenasWithoutUnlocking
    (fun _ _ => true) fun _ => noContents) (fun c => ?_) (fun c hc => ?_) rfl)
  · rfl
  · exact pairwise_of_forall fun _ _ _ => rfl

/-- The system call succeeds for the first arena of the list, and not for the second one. -/
def decommittedFirst : GCRuntime :=
  (start.after releasedTwo).decommitFreeArenasWithoutUnlocking (fun _ i => i == 1) fun _ => noContents

example : ((decommittedFirst.allocateArena 0).map fun (a, s) => (a, (s.chunks 0).decommittedArenas a)) =
    some (1, true) := by decide +kernel

theorem not_sound_decommittedFirst : ¬ ∀ s : GCRuntime, Reachable (fun _ _ => True) s → s.Sound := by
  intro hall
  have hreachable : Reachable (fun _ _ => True) decommittedFirst :=
    (reachable_releasedTwo fun _ _ _ => trivial).next (.decommitFreeArenasWithoutUnlocking (fun _ i => i == 1)
      fun _ => noContents) (fun _ => rfl) trivial rfl
  have hlist := ((hall _ hreachable).agree 0 (by decide +kernel)).list 1
  have hmem : 1 ∈ (decommittedFirst.chunks 0).freeArenas := by decide +kernel
  have hbit : (decommittedFirst.chunks 0).decommittedArenas 1 = true := by decide +kernel
  simp [(hlist.1 hmem).2] at hbit

end SpiderMonkey.Gc.GCRuntime
