import SpiderMonkey.Gc.Bitmap

/-!
# Atom marking

Each zone has a bitmap with at least the atoms that it uses.  Each arena of the atoms zone has a range of
words in these bitmaps; a range is used again when its arena is gone, with whatever bits are left in it.
When the atoms zone is collected, the bitmaps of the collected zones lose the atoms that were not marked,
and the atoms in the bitmaps of the other zones are marked, before the atoms that are not marked are swept.
-/

namespace SpiderMonkey.Gc

def ArenaBitmapWords : ℕ := 8
def ArenaBitmapBits : ℕ := 512

structure Arena where
  atomBitmapStart : ℕ
  markBits : ℕ → Word

/-- The place of an atom or a symbol: its arena, and its bit among the bits of the arena. -/
structure AtomCell where
  arena : ℕ
  arenaBit : ℕ
  deriving DecidableEq

/-- Symbols may have a description. -/
structure AtomInfo where
  isPermanent : Bool
  description : Option AtomCell

/-- The zones that are collected are told by a function. -/
inductive Phase
  | idle
  | marking (isCollecting : ℕ → Bool)
  | sweeping (isCollecting : ℕ → Bool)

/-- `references` says which atoms the things of a zone refer to, also by the descriptions of symbols. -/
structure Runtime where
  arenas : KeyedTable ℕ Arena
  freeArenaIndexes : List ℕ
  allocatedWords : ℕ
  atoms : AtomCell → Option AtomInfo
  zones : List ℕ
  markedAtoms : ℕ → SparseBitmap
  phase : Phase
  references : ℕ → AtomCell → Prop

namespace Runtime

def initial (zones : List ℕ) : Runtime :=
  ⟨KeyedTable.empty, [], 0, fun _ => none, zones, fun _ => SparseBitmap.empty, .idle, fun _ _ => False⟩

variable (s : Runtime)

/-! ## Arenas -/

/-- The arena comes with whatever is in its mark bits. -/
def registerArena (arena : ℕ) (markBits : ℕ → Word) : Runtime :=
  match s.freeArenaIndexes with
  | start :: rest => { s with arenas := s.arenas.insert arena ⟨start, markBits⟩, freeArenaIndexes := rest }
  | [] =>
    { s with
      arenas := s.arenas.insert arena ⟨s.allocatedWords, markBits⟩
      allocatedWords := s.allocatedWords + ArenaBitmapWords }

/-- The range is lost if it cannot be recorded. -/
def unregisterArena (arena : ℕ) (recorded : Bool) : Runtime :=
  match s.arenas.find arena with
  | none => s
  | some a =>
    { s with
      arenas := s.arenas.erase arena
      freeArenaIndexes := if recorded = true then a.atomBitmapStart :: s.freeArenaIndexes
        else s.freeArenaIndexes }

/-! ## Mark bits -/

variable (a : AtomCell)

def GetAtomBit : Option ℕ :=
  (s.arenas.find a.arena).map fun arena => arena.atomBitmapStart * JS_BITS_PER_WORD + a.arenaBit

/-- The mark bit of the chunk. -/
def isMarked : Bool :=
  match s.arenas.find a.arena with
  | none => false
  | some arena => (arena.markBits (a.arenaBit / JS_BITS_PER_WORD)).getLsbD (a.arenaBit % JS_BITS_PER_WORD)

def setMarkBit : Runtime :=
  { s with
    arenas := s.arenas.mapValues fun id arena =>
      if id = a.arena then
        { arena with
          markBits := Function.update arena.markBits (a.arenaBit / JS_BITS_PER_WORD)
            (arena.markBits (a.arenaBit / JS_BITS_PER_WORD) ||| bitMask a.arenaBit) }
      else arena }

variable (zone : ℕ)

def atomIsMarked (a : AtomCell) : Bool :=
  match s.GetAtomBit a with
  | none => false
  | some bit => (s.markedAtoms zone).getBit bit

/-- An atom that is read is marked while marking is under way. -/
def readBarrier : Runtime :=
  match s.phase with
  | .marking _ => s.setMarkBit a
  | .idle | .sweeping _ => s

def markCell (a : AtomCell) : Runtime :=
  match s.atoms a, s.GetAtomBit a with
  | some info, some bit =>
    if info.isPermanent = true then s
    else
      readBarrier { s with markedAtoms := Function.update s.markedAtoms zone ((s.markedAtoms zone).setBit bit) } a
  | _, _ => s

def childOf : Option AtomCell := (s.atoms a).bind AtomInfo.description

/-- `inlinedMarkAtom`; the description of a symbol that is not permanent is marked too. -/
def inlinedMarkAtom (a : AtomCell) : Runtime :=
  if (s.atoms a).map AtomInfo.isPermanent = some true then s
  else
    match s.childOf a with
    | none => s.markCell zone a
    | some description => (s.markCell zone a).markCell zone description

/-- The zone refers to an atom, with its description. -/
def addReference (a : AtomCell) : Runtime :=
  { s with references := fun z x => s.references z x ∨ (z = zone ∧ (x = a ∨ s.childOf a = some x)) }

/-- The things of the zone `source` are now in the zone `target`. -/
def adoptMarkedAtoms (target source : ℕ) : Runtime :=
  { s with
    markedAtoms := Function.update s.markedAtoms target
      ((s.markedAtoms target).bitwiseOrWith (s.markedAtoms source))
    references := fun z x => s.references z x ∨ (z = target ∧ s.references source x) }

/-- While the atoms are collected, new ones are marked. -/
def allocate (info : AtomInfo) : Runtime :=
  let s := { s with atoms := Function.update s.atoms a (some info) }
  match s.phase with
  | .idle => s
  | .marking _ | .sweeping _ => s.setMarkBit a

/-! ## Collections -/

def computeBitmapFromChunkMarkBits : DenseBitmap :=
  s.arenas.entries.foldl
    (fun bitmap entry => bitmap.copyBitsFrom entry.2.atomBitmapStart ArenaBitmapWords entry.2.markBits)
    (DenseBitmap.ensureSpace s.allocatedWords)

variable (isCollecting : ℕ → Bool)

/-- `refineZoneBitmapForCollectedZone`, for all collected zones. -/
def refineZoneBitmaps (bitmap : DenseBitmap) : Runtime :=
  { s with
    markedAtoms := fun z => if isCollecting z = true then (s.markedAtoms z).bitwiseAndWith bitmap
      else s.markedAtoms z }

def orIntoChunkMarkBits (arenas : KeyedTable ℕ Arena) (orRangeInto : ℕ → ℕ → (ℕ → Word) → ℕ → Word) :
    KeyedTable ℕ Arena :=
  arenas.mapValues fun _ arena =>
    { arena with markBits := orRangeInto arena.atomBitmapStart ArenaBitmapWords arena.markBits }

/-- The union of the bitmaps is used if there is space for it. -/
def markAtomsUsedByUncollectedZones (space : Bool) : Runtime :=
  { s with
    arenas :=
      if space = true then
        let markedUnion := s.zones.foldl
          (fun u z => if isCollecting z = true then u else (s.markedAtoms z).bitwiseOrInto u)
          (DenseBitmap.ensureSpace s.allocatedWords)
        orIntoChunkMarkBits s.arenas markedUnion.bitwiseOrRangeInto
      else
        s.zones.foldl (fun arenas z => if isCollecting z = true then arenas
          else orIntoChunkMarkBits arenas (s.markedAtoms z).bitwiseOrRangeInto) s.arenas }

def updateAtomsBitmap (computed space : Bool) : Runtime :=
  let s := if computed = true then s.refineZoneBitmaps isCollecting s.computeBitmapFromChunkMarkBits else s
  { s.markAtomsUsedByUncollectedZones isCollecting space with phase := .sweeping isCollecting }

/-- All mark bits are cleared. -/
def startCollection : Runtime :=
  { s with
    arenas := s.arenas.mapValues fun _ arena => { arena with markBits := fun _ => 0 }
    phase := .marking isCollecting }

def sweep : Runtime := { s with atoms := Function.update s.atoms a none }

/-! ## Runs -/

/-- The atom is there, and it is not about to be swept. -/
def IsAlive : Prop :=
  (∃ info, s.atoms a = some info) ∧ ∀ isCollecting, s.phase = .sweeping isCollecting → s.isMarked a = true

/-- A zone can get hold of the atom: it is alive, with its description, which is no symbol. -/
structure Obtainable (a : AtomCell) : Prop where
  alive : s.IsAlive a
  description : ∀ d, s.childOf a = some d → s.IsAlive d ∧ s.childOf d = none
  permanent : (s.atoms a).map AtomInfo.isPermanent = some true → ∀ d, s.childOf a = some d →
    (s.atoms d).map AtomInfo.isPermanent = some true

/-- The zone is not part of a collection that is under way. -/
def NotCollecting : Prop := ∀ isCollecting,
  s.phase = .marking isCollecting ∨ s.phase = .sweeping isCollecting → isCollecting zone = false

inductive Step : Runtime → Runtime → Prop
  | registerArena {s : Runtime} (arena : ℕ) (markBits : ℕ → Word) (h : s.arenas.find arena = none) :
      Step s (s.registerArena arena markBits)
  | unregisterArena {s : Runtime} (arena : ℕ) (recorded : Bool)
      (h : ∀ a info, s.atoms a = some info → a.arena ≠ arena) : Step s (s.unregisterArena arena recorded)
  | allocate {s : Runtime} (a : AtomCell) (info : AtomInfo) (h : (s.arenas.find a.arena).isSome = true)
      (hbit : a.arenaBit < ArenaBitmapBits) (hnew : s.atoms a = none) : Step s (s.allocate a info)
  | markAtom {s : Runtime} (zone : ℕ) (hzone : zone ∈ s.zones) (a : AtomCell) (h : s.Obtainable a) :
      Step s ((s.inlinedMarkAtom zone a).addReference zone a)
  | adoptMarkedAtoms {s : Runtime} (target source : ℕ) (htarget : target ∈ s.zones) (hsource : source ∈ s.zones)
      (h : s.NotCollecting source) : Step s (s.adoptMarkedAtoms target source)
  | dropReferences {s : Runtime} (references : ℕ → AtomCell → Prop)
      (hsub : ∀ z a, references z a → s.references z a)
      (hchild : ∀ z a d, references z a → s.childOf a = some d → references z d) :
      Step s { s with references := references }
  | startCollection {s : Runtime} (isCollecting : ℕ → Bool) (h : s.phase = .idle) :
      Step s (s.startCollection isCollecting)
  | mark {s : Runtime} (isCollecting : ℕ → Bool) (h : s.phase = .marking isCollecting) (a : AtomCell)
      (ha : ∃ info, s.atoms a = some info) : Step s (s.setMarkBit a)
  /-- When marking is over, the atoms of the collected zones and the permanent ones have been marked. -/
  | updateAtomsBitmap {s : Runtime} (isCollecting : ℕ → Bool) (h : s.phase = .marking isCollecting)
      (hzones : ∀ z a, isCollecting z = true → s.references z a → s.isMarked a = true)
      (hroots : ∀ a info, s.atoms a = some info → info.isPermanent = true → s.isMarked a = true)
      (computed space : Bool) : Step s (s.updateAtomsBitmap isCollecting computed space)
  | sweep {s : Runtime} (isCollecting : ℕ → Bool) (h : s.phase = .sweeping isCollecting) (a : AtomCell)
      (hdead : s.isMarked a = false) : Step s (s.sweep a)
  | endCollection {s : Runtime} (isCollecting : ℕ → Bool) (h : s.phase = .sweeping isCollecting) :
      Step s { s with phase := .idle }

/-- The states of the runs from the start. -/
inductive Reachable (zones : List ℕ) : Runtime → Prop
  | initial : Reachable zones (initial zones)
  | step {s s' : Runtime} (h : Reachable zones s) (hstep : Step s s') : Reachable zones s'

end Runtime

end SpiderMonkey.Gc
