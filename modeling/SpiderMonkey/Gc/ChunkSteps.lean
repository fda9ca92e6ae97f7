import SpiderMonkey.Gc.ChunkArenas
import Mathlib.Algebra.BigOperators.Group.Finset.Basic
import Mathlib.Algebra.Order.BigOperators.Group.Finset

/-!
# The pools are right

The invariant of the pools (`GCRuntime.Inv`), and what a change of one chunk does to it
(`GCRuntime.Inv.change`).
-/

namespace SpiderMonkey.Gc.GCRuntime

open List Function

/-- The committed free arenas of all chunks. -/
def committed (s : GCRuntime) : ℕ := ∑ c ∈ s.pools.toFinset, (s.chunks c).numArenasFreeCommitted

/-- The arenas of a chunk are in one place each. -/
def ChunkOk (s : GCRuntime) (c : ℕ) : Prop :=
  (∃ l, (s.chunks c).Ok (s.held c) (s.detached c) l) ∧ (s.chunks c).lastDecommittedArenaOffset ≤ ArenasPerChunk

structure Inv (s : GCRuntime) : Prop where
  nodup : s.pools.Nodup
  ok : ∀ c ∈ s.pools, s.ChunkOk c
  available : ∀ c ∈ s.availableChunks, 0 < (s.chunks c).numArenasFree ∧ (s.chunks c).numArenasFree < ArenasPerChunk
  full : ∀ c ∈ s.fullChunks, (s.chunks c).numArenasFree = 0
  empty : ∀ c ∈ s.emptyChunks, (s.chunks c).numArenasFreeCommitted = 0 ∧ s.held c = ∅ ∧ s.detached c = ∅
  outside : ∀ c ∉ s.pools, s.held c = ∅ ∧ s.detached c = ∅
  count : s.committed ≤ s.numArenasFreeCommitted
  lt : s.numArenasFreeCommitted < 2 ^ 32

variable {s s' : GCRuntime} {c a : ℕ}

lemma mem_pools (hc : c ∈ s.availableChunks ∨ c ∈ s.fullChunks) : c ∈ s.pools := by
  rw [pools, mem_append, mem_append]
  exact .inl hc

/-- Only the chunk `c` has changed, or is in another pool. -/
structure Changes (s s' : GCRuntime) (c : ℕ) : Prop where
  chunks : ∀ x ≠ c, s'.chunks x = s.chunks x
  held : ∀ x ≠ c, s'.held x = s.held x
  detached : ∀ x ≠ c, s'.detached x = s.detached x
  pools : s'.pools.Perm s.pools
  available : ∀ x ≠ c, x ∈ s'.availableChunks → x ∈ s.availableChunks
  full : ∀ x ≠ c, x ∈ s'.fullChunks → x ∈ s.fullChunks
  empty : ∀ x ≠ c, x ∈ s'.emptyChunks → x ∈ s.emptyChunks

namespace Inv

lemma initial (chunks : ℕ → Chunk) : (initial chunks).Inv where
  nodup := nodup_nil
  ok := nofun
  available := nofun
  full := nofun
  empty := nofun
  outside _ _ := ⟨rfl, rfl⟩
  count := le_rfl
  lt := Nat.two_pow_pos 32

variable (h : s.Inv)
include h

lemma committed_le (hc : c ∈ s.pools) : (s.chunks c).numArenasFreeCommitted ≤ s.numArenasFreeCommitted :=
  (Finset.single_le_sum (f := fun c => (s.chunks c).numArenasFreeCommitted) (fun _ _ => Nat.zero_le _)
    (mem_toFinset.2 hc)).trans h.count

lemma change (hc : c ∈ s.pools) (hch : Changes s s' c) (hok : s'.ChunkOk c) (havailable : c ∈ s'.availableChunks →
      0 < (s'.chunks c).numArenasFree ∧ (s'.chunks c).numArenasFree < ArenasPerChunk)
    (hfull : c ∈ s'.fullChunks → (s'.chunks c).numArenasFree = 0)
    (hempty : c ∈ s'.emptyChunks → (s'.chunks c).numArenasFreeCommitted = 0 ∧ s'.held c = ∅ ∧ s'.detached c = ∅)
    (hcount : s.numArenasFreeCommitted + (s'.chunks c).numArenasFreeCommitted ≤
      s'.numArenasFreeCommitted + (s.chunks c).numArenasFreeCommitted)
    (hlt : s'.numArenasFreeCommitted < 2 ^ 32) : s'.Inv where
  nodup := hch.pools.nodup_iff.2 h.nodup
  ok x hx := by
    by_cases heq : x = c
    · exact heq ▸ hok
    · have hold := h.ok x (hch.pools.mem_iff.1 hx)
      rw [ChunkOk, hch.chunks x heq, hch.held x heq, hch.detached x heq]
      exact hold
  available x hx := by
    by_cases heq : x = c
    · exact heq ▸ havailable (heq ▸ hx)
    · rw [hch.chunks x heq]
      exact h.available x (hch.available x heq hx)
  full x hx := by
    by_cases heq : x = c
    · exact heq ▸ hfull (heq ▸ hx)
    · rw [hch.chunks x heq]
      exact h.full x (hch.full x heq hx)
  empty x hx := by
    by_cases heq : x = c
    · exact heq ▸ hempty (heq ▸ hx)
    · rw [hch.chunks x heq, hch.held x heq, hch.detached x heq]
      exact h.empty x (hch.empty x heq hx)
  outside x hx := by
    have hx' : x ∉ s.pools := fun hmem => hx (hch.pools.mem_iff.2 hmem)
    have heq : x ≠ c := fun heq => hx' (heq ▸ hc)
    rw [hch.held x heq, hch.detached x heq]
    exact h.outside x hx'
  count := by
    have hset : s'.pools.toFinset = s.pools.toFinset := toFinset_eq_of_perm _ _ hch.pools
    have hmem : c ∈ s.pools.toFinset := mem_toFinset.2 hc
    have hold := h.count
    rw [committed] at hold ⊢
    rw [hset, ← Finset.add_sum_erase _ _ hmem]
    rw [← Finset.add_sum_erase _ _ hmem] at hold
    have hrest : ∑ x ∈ s.pools.toFinset.erase c, (s'.chunks x).numArenasFreeCommitted =
        ∑ x ∈ s.pools.toFinset.erase c, (s.chunks x).numArenasFreeCommitted :=
      Finset.sum_congr rfl fun x hx => by rw [hch.chunks x (Finset.ne_of_mem_erase hx)]
    rw [hrest]
    omega
  lt := hlt

/-- The chunks that zones have arenas of, or that have detached arenas. -/
lemma mem_of_used (ha : a ∈ s.held c ∨ a ∈ s.detached c) : c ∈ s.availableChunks ∨ c ∈ s.fullChunks := by
  have hnot (hnone : s.held c = ∅ ∧ s.detached c = ∅) : False := by
    rw [hnone.1, hnone.2] at ha
    exact ha.elim (Finset.notMem_empty a) (Finset.notMem_empty a)
  by_cases hc : c ∈ s.pools
  · rw [pools, mem_append, mem_append] at hc
    exact hc.resolve_right fun hempty => hnot (h.empty c hempty).2
  · exact (hnot (h.outside c hc)).elim

end Inv

/-! ## Moving a chunk -/

/-- Only the chunk `c` has changed. -/
structure Touches (s s' : GCRuntime) (c : ℕ) : Prop where
  chunks : ∀ x ≠ c, s'.chunks x = s.chunks x
  held : ∀ x ≠ c, s'.held x = s.held x
  detached : ∀ x ≠ c, s'.detached x = s.detached x
  available : s'.availableChunks = s.availableChunks
  full : s'.fullChunks = s.fullChunks
  empty : s'.emptyChunks = s.emptyChunks

namespace Touches

variable (h : Touches s s' c)
include h

lemma pools_eq : s'.pools = s.pools := by rw [pools, pools, h.available, h.full, h.empty]

lemma changes : Changes s s' c where
  chunks := h.chunks
  held := h.held
  detached := h.detached
  pools := h.pools_eq ▸ .refl _
  available _ _ hx := h.available ▸ hx
  full _ _ hx := h.full ▸ hx
  empty _ _ hx := h.empty ▸ hx

end Touches

namespace Inv

lemma disjoint (h : s.Inv) : (c ∈ s.availableChunks → c ∉ s.fullChunks) ∧
    (c ∈ s.availableChunks ∨ c ∈ s.fullChunks → c ∉ s.emptyChunks) := by
  have hnodup := h.nodup
  rw [pools, nodup_append'] at hnodup
  obtain ⟨hleft, -, hempty⟩ := hnodup
  exact ⟨fun ha hf => (nodup_append'.1 hleft).2.2 ha hf, fun hc he => hempty (mem_append.2 hc) he⟩

variable {s₁ : GCRuntime}

lemma afterAlloc (h : s.Inv) (hc : c ∈ s.availableChunks) (ht : Touches s s₁ c) (hok : s₁.ChunkOk c)
    (hfree : (s₁.chunks c).numArenasFree + 1 = (s.chunks c).numArenasFree)
    (hcount : s.numArenasFreeCommitted + (s₁.chunks c).numArenasFreeCommitted ≤
      s₁.numArenasFreeCommitted + (s.chunks c).numArenasFreeCommitted)
    (hlt : s₁.numArenasFreeCommitted < 2 ^ 32) : (s₁.updateChunkListAfterAlloc c).Inv := by
  obtain ⟨hnotfull, hnotempty⟩ := h.disjoint (c := c)
  have hlow := h.available c hc
  have hmem := mem_pools (.inl hc : c ∈ s.availableChunks ∨ c ∈ s.fullChunks)
  rw [updateChunkListAfterAlloc]
  split_ifs with hzero
  · refine h.change hmem ⟨ht.chunks, ht.held, ht.detached, ?_, fun x hx hin => ?_, fun x hx hin => ?_,
      fun x _ hin => ht.empty ▸ hin⟩ hok (fun hin => ?_) (fun _ => hzero) (fun hin => ?_) hcount hlt
    · rw [pools, pools, ht.available, ht.full, ht.empty]
      refine .append_right _ (perm_middle.trans ?_)
      exact (perm_cons_erase hc).symm.append_right _
    · exact ht.available ▸ mem_of_mem_erase hin
    · exact ht.full ▸ mem_of_ne_of_mem hx hin
    · have hnodup := h.nodup
      rw [pools, append_assoc, nodup_append'] at hnodup
      exact absurd (ht.available ▸ hin) hnodup.1.not_mem_erase
    · exact absurd (ht.empty ▸ hin) (hnotempty (.inl hc))
  · refine h.change hmem ht.changes hok (fun _ => ⟨Nat.pos_of_ne_zero hzero, by omega⟩) (fun hin => ?_)
      (fun hin => ?_) hcount hlt
    · exact absurd (ht.full ▸ hin) (hnotfull hc)
    · exact absurd (ht.empty ▸ hin) (hnotempty (.inl hc))

lemma afterFree (h : s.Inv) (hc : c ∈ s.availableChunks ∨ c ∈ s.fullChunks) (ht : Touches s s₁ c)
    (hok : s₁.ChunkOk c) (hfree : (s₁.chunks c).numArenasFree = (s.chunks c).numArenasFree + 1)
    (hcount : s.numArenasFreeCommitted + (s₁.chunks c).numArenasFreeCommitted ≤
      s₁.numArenasFreeCommitted + (s.chunks c).numArenasFreeCommitted)
    (hlt : s₁.numArenasFreeCommitted < 2 ^ 32) (contents : ℕ → ArenaHeader) :
    (s₁.updateChunkListAfterFree c contents).Inv := by
  obtain ⟨hnotfull, hnotempty⟩ := h.disjoint (c := c)
  have hmem := mem_pools hc
  have hnodup := h.nodup
  rw [pools, append_assoc, nodup_append'] at hnodup
  rw [updateChunkListAfterFree]
  split_ifs with hone hused
  · -- the chunk was full
    have hfull : c ∈ s.fullChunks := hc.resolve_left fun ha => by
      have := (h.available c ha).1
      omega
    refine h.change hmem ⟨ht.chunks, ht.held, ht.detached, ?_, fun x hx hin => ?_, fun x hx hin => ?_,
      fun x _ hin => ht.empty ▸ hin⟩ hok (fun _ => ?_) (fun hin => ?_) (fun hin => ?_) hcount hlt
    · rw [pools, pools, ht.available, ht.full, ht.empty]
      refine .append_right _ ?_
      exact perm_middle.symm.trans ((perm_cons_erase hfull).symm.append_left _)
    · exact ht.available ▸ mem_of_ne_of_mem hx hin
    · exact ht.full ▸ mem_of_mem_erase hin
    · dsimp only
      rw [hone]
      decide
    · exact absurd (ht.full ▸ hin) (nodup_append'.1 hnodup.2.1).1.not_mem_erase
    · exact absurd (ht.empty ▸ hin) (hnotempty hc)
  · refine h.change hmem ht.changes hok (fun hin => ?_) (fun hin => ?_) (fun hin => ?_) hcount hlt
    · have hlow := h.available c (ht.available ▸ hin)
      omega
    · have hzero := h.full c (ht.full ▸ hin)
      omega
    · exact absurd (ht.empty ▸ hin) (hnotempty hc)
  · -- all arenas of the chunk are free
    rw [not_not] at hused
    have havailable : c ∈ s.availableChunks := hc.resolve_right fun hf => by
      have hzero := h.full c hf
      omega
    obtain ⟨⟨l, hl⟩, -⟩ := hok
    have hcard := hl.card_eq
    have hheld : s₁.held c = ∅ := Finset.card_eq_zero.1 (by omega)
    have hdetached : s₁.detached c = ∅ := Finset.card_eq_zero.1 (by omega)
    refine h.change hmem ⟨fun x hx => ?_, ht.held, ht.detached, ?_, fun x hx hin => ?_, fun x _ hin => ht.full ▸ hin,
      fun x hx hin => ?_⟩ ⟨⟨[], ?_⟩, ?_⟩ (fun hin => ?_) (fun hin => ?_) (fun _ => ?_) ?_ hlt
    · exact (update_of_ne hx _ _).trans (ht.chunks x hx)
    · dsimp only [pools, setChunk]
      rw [ht.available, ht.full, ht.empty]
      refine perm_middle.trans ?_
      refine List.Perm.trans ?_ (.append_right _ ((perm_cons_erase havailable).symm.append_right _))
      exact .refl _
    · exact ht.available ▸ mem_of_mem_erase hin
    · exact ht.empty ▸ mem_of_ne_of_mem hx hin
    · dsimp only [setChunk]
      rw [update_self, hheld, hdetached]
      exact Chunk.ok_decommitAllArenas contents
    · dsimp only [setChunk]
      rw [update_self]
      exact Nat.zero_le _
    · exact absurd (ht.available ▸ hin) hnodup.1.not_mem_erase
    · exact absurd (ht.full ▸ hin) (hnotfull havailable)
    · dsimp only [setChunk]
      rw [update_self]
      exact ⟨rfl, hheld, hdetached⟩
    · dsimp only [setChunk]
      rw [update_self]
      change s.numArenasFreeCommitted + 0 ≤ _
      omega

end Inv

end SpiderMonkey.Gc.GCRuntime
