import SpiderMonkey.Lib.LinkedList

/-!
# The arenas of a chunk

A chunk is divided into arenas.  Free arenas that are committed are in a list that is linked through their
headers, of which the first `numArenasFreeCommitted` count; free arenas that are decommitted have a bit in
`decommittedArenas`, and nothing is known about the contents of their memory.
-/

namespace SpiderMonkey.Gc

def ArenasPerChunk : ℕ := 252

/-- What is used here of the header of an arena: whether it has a kind, and the next arena of its list. -/
structure ArenaHeader where
  allocated : Bool
  next : Option ℕ
  deriving DecidableEq

structure Chunk where
  arenas : ℕ → ArenaHeader
  decommittedArenas : ℕ → Bool
  freeArenasHead : Option ℕ
  lastDecommittedArenaOffset : ℕ
  numArenasFree : ℕ
  numArenasFreeCommitted : ℕ

namespace Chunk

variable (chunk : Chunk)

/-! ## Free arenas -/

variable (arena : ℕ)

def next : Option ℕ := (chunk.arenas arena).next

def freeArenas : List ℕ := nodesFrom chunk.next chunk.numArenasFreeCommitted chunk.freeArenasHead

def setHeader (header : ArenaHeader) : Chunk :=
  { chunk with arenas := Function.update chunk.arenas arena header }

def setAsNotAllocated : Chunk := chunk.setHeader arena ⟨false, chunk.next arena⟩

def initArena : Chunk := chunk.setHeader arena ⟨true, chunk.next arena⟩

def addArenaToFreeList : Chunk :=
  { chunk.setHeader arena ⟨(chunk.arenas arena).allocated, chunk.freeArenasHead⟩ with
    freeArenasHead := some arena
    numArenasFreeCommitted := chunk.numArenasFreeCommitted + 1
    numArenasFree := chunk.numArenasFree + 1 }

def addArenaToDecommittedList : Chunk :=
  { chunk with
    numArenasFree := chunk.numArenasFree + 1
    decommittedArenas := Function.update chunk.decommittedArenas arena true }

/-- There is none if the list is at its end, which is not tested. -/
def fetchNextFreeArena : Option (ℕ × Chunk) :=
  match chunk.freeArenasHead with
  | none => none
  | some arena =>
    some (arena, { chunk with
        freeArenasHead := chunk.next arena
        numArenasFreeCommitted := chunk.numArenasFreeCommitted - 1
        numArenasFree := chunk.numArenasFree - 1 })

/-- Crashes without a decommitted arena. -/
def findDecommittedArenaOffset : Option ℕ :=
  (List.range' chunk.lastDecommittedArenaOffset (ArenasPerChunk - chunk.lastDecommittedArenaOffset) ++
    List.range chunk.lastDecommittedArenaOffset).find? chunk.decommittedArenas

def fetchNextDecommittedArena : Option (ℕ × Chunk) :=
  match chunk.findDecommittedArenaOffset with
  | none => none
  | some offset =>
    some (offset, { chunk.setAsNotAllocated offset with
        lastDecommittedArenaOffset := offset + 1
        numArenasFree := chunk.numArenasFree - 1
        decommittedArenas := Function.update chunk.decommittedArenas offset false })

/-! ## Decommitting -/

/-- Nothing is known about the contents after it. -/
def decommitAllArenas (contents : ℕ → ArenaHeader) : Chunk where
  arenas := contents
  decommittedArenas := fun _ => true
  freeArenasHead := none
  lastDecommittedArenaOffset := 0
  numArenasFree := ArenasPerChunk
  numArenasFreeCommitted := 0

/-- One round of the loop; `ok` is the result of `MarkPagesUnusedSoft` for each arena. -/
def decommitFreeArena (ok : ℕ → Bool) (contents : ℕ → ArenaHeader) (i : ℕ) : Chunk :=
  if chunk.decommittedArenas i = true ∨ (chunk.arenas i).allocated = true then chunk
  else if ok i = true then
    { chunk.setHeader i (contents i) with
      numArenasFreeCommitted := chunk.numArenasFreeCommitted - 1
      decommittedArenas := Function.update chunk.decommittedArenas i true }
  else chunk

/-- The list of the free arenas is left as it is. -/
def decommitFreeArenasWithoutUnlocking (ok : ℕ → Bool) (contents : ℕ → ArenaHeader) : Chunk :=
  (List.range ArenasPerChunk).foldl (fun chunk i => chunk.decommitFreeArena ok contents i) chunk

end Chunk

end SpiderMonkey.Gc
