import SpiderMonkey.Gc.Chunk
import Mathlib.Data.Finset.Basic

/-!
# The pools of chunks

A chunk is full, or it has arenas that are available, or it is empty.  The steps of this module hold the lock
of the collector; the background task gives it up while the arena that it decommits is in no list.
-/

namespace SpiderMonkey.Gc

/-- `held` are the arenas that zones have, and `detached` those that are being decommitted, by chunks. -/
structure GCRuntime where
  chunks : ℕ → Chunk
  availableChunks : List ℕ
  fullChunks : List ℕ
  emptyChunks : List ℕ
  numArenasFreeCommitted : ℕ
  held : ℕ → Finset ℕ
  detached : ℕ → Finset ℕ

namespace GCRuntime

def initial (chunks : ℕ → Chunk) : GCRuntime := ⟨chunks, [], [], [], 0, fun _ => ∅, fun _ => ∅⟩

variable (s : GCRuntime) (c a : ℕ)

def pools : List ℕ := s.availableChunks ++ s.fullChunks ++ s.emptyChunks

/-! ## Parts of the state -/

def setChunk (chunk : Chunk) : GCRuntime := { s with chunks := Function.update s.chunks c chunk }

def hold : GCRuntime := { s with held := Function.update s.held c (insert a (s.held c)) }

def unhold : GCRuntime := { s with held := Function.update s.held c ((s.held c).erase a) }

def detach : GCRuntime := { s with detached := Function.update s.detached c (insert a (s.detached c)) }

def reattach : GCRuntime := { s with detached := Function.update s.detached c ((s.detached c).erase a) }

/-- The counter has 32 bits. -/
def updateOnArenaFree : GCRuntime := { s with numArenasFreeCommitted := (s.numArenasFreeCommitted + 1) % 2 ^ 32 }

def updateOnFreeArenaAlloc : GCRuntime :=
  { s with numArenasFreeCommitted := (s.numArenasFreeCommitted + (2 ^ 32 - 1)) % 2 ^ 32 }

/-! ## Moving chunks -/

def updateChunkListAfterAlloc : GCRuntime :=
  if (s.chunks c).numArenasFree = 0 then
    { s with availableChunks := s.availableChunks.erase c, fullChunks := c :: s.fullChunks }
  else s

variable (contents : ℕ → ArenaHeader)

def updateChunkListAfterFree : GCRuntime :=
  if (s.chunks c).numArenasFree = 1 then
    { s with fullChunks := s.fullChunks.erase c, availableChunks := c :: s.availableChunks }
  else if (s.chunks c).numArenasFree ≠ ArenasPerChunk then s
  else
    { s.setChunk c (.decommitAllArenas contents) with
      availableChunks := s.availableChunks.erase c
      emptyChunks := c :: s.emptyChunks }

/-- The fresh chunk is one that the system gives, if there is one. -/
def getOrAllocChunk (fresh : Option ℕ) : Option (ℕ × GCRuntime) :=
  match s.emptyChunks with
  | c :: rest => some (c, { s with emptyChunks := rest })
  | [] => fresh.map fun c => (c, s)

def pickChunk (fresh : Option ℕ) (contents : ℕ → ArenaHeader) : Option (ℕ × GCRuntime) :=
  match s.availableChunks with
  | c :: _ => some (c, s)
  | [] => (s.getOrAllocChunk fresh).map fun (c, s) =>
    (c, { s.setChunk c (.decommitAllArenas contents) with availableChunks := c :: s.availableChunks })

/-! ## Arenas -/

def fetchNextFreeArena : Option (ℕ × GCRuntime) :=
  (s.chunks c).fetchNextFreeArena.map fun (arena, chunk) => (arena, (s.setChunk c chunk).updateOnFreeArenaAlloc)

def fetchNextDecommittedArena : Option (ℕ × GCRuntime) :=
  (s.chunks c).fetchNextDecommittedArena.map fun (arena, chunk) => (arena, s.setChunk c chunk)

def allocateArena : Option (ℕ × GCRuntime) :=
  let fetched := if 0 < (s.chunks c).numArenasFreeCommitted then s.fetchNextFreeArena c
    else s.fetchNextDecommittedArena c
  fetched.map fun (arena, s) => (arena, (s.setChunk c ((s.chunks c).initArena arena)).updateChunkListAfterAlloc c)

def addArenaToFreeList : GCRuntime :=
  (s.setChunk c ((s.chunks c).addArenaToFreeList a)).updateOnArenaFree

def addArenaToDecommittedList : GCRuntime := s.setChunk c ((s.chunks c).addArenaToDecommittedList a)

def releaseArena : GCRuntime :=
  ((s.setChunk c ((s.chunks c).setAsNotAllocated a)).addArenaToFreeList c a).updateChunkListAfterFree c contents

/-- The first half of `decommitOneFreeArena`, before the lock is given up. -/
def startDecommit : Option (ℕ × GCRuntime) :=
  (s.fetchNextFreeArena c).map fun (arena, s) => (arena, s.updateChunkListAfterAlloc c)

/-- The second half, with the result of `MarkPagesUnusedSoft` and what is then in the memory of the arena. -/
def finishDecommit (ok : Bool) (header : ArenaHeader) (contents : ℕ → ArenaHeader) : GCRuntime :=
  let s := if ok = true then (s.setChunk c ((s.chunks c).setHeader a header)).addArenaToDecommittedList c a
    else s.addArenaToFreeList c a
  s.updateChunkListAfterFree c contents

def decommitFreeArenasWithoutUnlocking (ok : ℕ → ℕ → Bool) (contents : ℕ → ℕ → ArenaHeader) : GCRuntime :=
  { s with
    chunks := fun c =>
      if c ∈ s.availableChunks then (s.chunks c).decommitFreeArenasWithoutUnlocking (ok c) (contents c)
      else s.chunks c }

/-! ## Sorting and expiry -/

/-- Stable: the front comes first if the numbers are equal. -/
def merge (numArenasFree : ℕ → ℕ) : List ℕ → List ℕ → List ℕ
  | [], back => back
  | front, [] => front
  | f :: front, b :: back =>
    if numArenasFree f ≤ numArenasFree b then f :: merge numArenasFree front (b :: back)
    else b :: merge numArenasFree (f :: front) back

def mergeSort (numArenasFree : ℕ → ℕ) (list : List ℕ) (count : ℕ) : List ℕ :=
  if count < 2 then list
  else
    merge numArenasFree (mergeSort numArenasFree (list.take (count / 2)) (count / 2))
      (mergeSort numArenasFree (list.drop (count / 2)) (count - count / 2))
termination_by count

def isSorted (numArenasFree : ℕ → ℕ) : ℕ → List ℕ → Bool
  | _, [] => true
  | last, c :: chunks =>
    if numArenasFree c < last then false else isSorted numArenasFree (numArenasFree c) chunks

def sort : GCRuntime :=
  let numArenasFree := fun c => (s.chunks c).numArenasFree
  if isSorted numArenasFree 1 s.availableChunks = true then s
  else { s with availableChunks := mergeSort numArenasFree s.availableChunks s.availableChunks.length }

/-- Chunks that are too many are freed. -/
def expire (numFreeCommitted : ℕ → ℕ) (minEmptyChunkCount : ℕ) : List ℕ → ℕ → List ℕ × ℕ
  | [], count => ([], count)
  | c :: chunks, count =>
    if minEmptyChunkCount < chunks.length + 1 then
      expire numFreeCommitted minEmptyChunkCount chunks ((count + (2 ^ 32 - numFreeCommitted c)) % 2 ^ 32)
    else (c :: chunks, count)

def expireEmptyChunkPool (minEmptyChunkCount : ℕ) : GCRuntime :=
  let expired := expire (fun c => (s.chunks c).numArenasFreeCommitted) minEmptyChunkCount s.emptyChunks
    s.numArenasFreeCommitted
  { s with emptyChunks := expired.1, numArenasFreeCommitted := expired.2 }

def freeEmptyChunks : GCRuntime := { s with emptyChunks := [] }

/-- A round of the task that allocates chunks in the background. -/
def allocateInBackground : GCRuntime :=
  { s.setChunk c (.decommitAllArenas contents) with emptyChunks := c :: s.emptyChunks }

/-! ## Runs -/

inductive Action
  | allocateArena (fresh : Option ℕ) (contents : ℕ → ArenaHeader)
  /-- A zone links the arenas that it has. -/
  | setNext (c a : ℕ) (next : Option ℕ)
  | releaseArena (c a : ℕ) (contents : ℕ → ArenaHeader)
  | startDecommit (c : ℕ)
  | finishDecommit (c a : ℕ) (ok : Bool) (header : ArenaHeader) (contents : ℕ → ArenaHeader)
  | decommitFreeArenasWithoutUnlocking (ok : ℕ → ℕ → Bool) (contents : ℕ → ℕ → ArenaHeader)
  | sort
  | expireEmptyChunkPool (minEmptyChunkCount : ℕ)
  | freeEmptyChunks
  | allocateInBackground (c : ℕ) (contents : ℕ → ArenaHeader)

/-- What the callers take care of. -/
def Enabled : Action → Prop
  | .allocateArena fresh _ => ∀ c, fresh = some c → c ∉ s.pools
  | .setNext c a _ | .releaseArena c a _ => a ∈ s.held c
  | .startDecommit c => c ∈ s.availableChunks ∧ 0 < (s.chunks c).numArenasFreeCommitted
  | .finishDecommit c a _ _ _ => a ∈ s.detached c
  | .decommitFreeArenasWithoutUnlocking _ _ => ∀ c, s.detached c = ∅
  | .allocateInBackground c _ => c ∉ s.pools
  | .sort | .expireEmptyChunkPool _ | .freeEmptyChunks => True

/-- There is no next state if an arena is fetched that is not there.  Nothing happens if there is no chunk. -/
def run : Action → Option GCRuntime
  | .allocateArena fresh contents =>
    match s.pickChunk fresh contents with
    | none => some s
    | some (c, s) => (s.allocateArena c).map fun (arena, s) => s.hold c arena
  | .setNext c a next => some (s.setChunk c ((s.chunks c).setHeader a ⟨((s.chunks c).arenas a).allocated, next⟩))
  | .releaseArena c a contents => some ((s.releaseArena c a contents).unhold c a)
  | .startDecommit c => (s.startDecommit c).map fun (arena, s) => s.detach c arena
  | .finishDecommit c a ok header contents => some ((s.finishDecommit c a ok header contents).reattach c a)
  | .decommitFreeArenasWithoutUnlocking ok contents => some (s.decommitFreeArenasWithoutUnlocking ok contents)
  | .sort => some s.sort
  | .expireEmptyChunkPool minEmptyChunkCount => some (s.expireEmptyChunkPool minEmptyChunkCount)
  | .freeEmptyChunks => some s.freeEmptyChunks
  | .allocateInBackground c contents => some (s.allocateInBackground c contents)

/-- The states of the runs from the start, with steps that meet a condition. -/
inductive Reachable (condition : GCRuntime → Action → Prop) : GCRuntime → Prop
  | initial (chunks : ℕ → Chunk) : Reachable condition (initial chunks)
  | step {s s' : GCRuntime} {action : Action} (h : Reachable condition s) (henabled : s.Enabled action)
      (hcondition : condition s action) (hrun : s.run action = some s') : Reachable condition s'

end GCRuntime

end SpiderMonkey.Gc
