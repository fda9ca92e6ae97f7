import SpiderMonkey.Lib.LoopIntervals

/-!
# Alias analysis

`AliasAnalysis::analyze` gives every load the last store that it may depend on: the greatest number among
the stores that may alias it and that are not known to lie on other ways.  A load whose dependency comes
before its loop is kept until the back edge of the loop is reached; if some store of the loop may alias it,
it comes to depend on the last instruction of the header, and otherwise it is handed to the outer loop.

The instructions are renumbered in the order of the blocks, so that a number stands for an instruction.
Whether a load and a store may alias is decided elsewhere (`Answers`).
-/

namespace SpiderMonkey.AliasAnalysis

def NumCategories : ℕ := 14

/-- Some categories of memory, read or written. -/
structure AliasSet where
  flags : Fin NumCategories → Bool
  isStore : Bool

namespace AliasSet

def categories (set : AliasSet) : List (Fin NumCategories) := (List.finRange NumCategories).filter set.flags

def isNone (set : AliasSet) : Bool := !set.isStore && set.categories.isEmpty

end AliasSet

structure Instruction where
  aliasSet : AliasSet
  canRecoverOnBailout : Bool

/-- A block: its phis are counted, and its last instruction, which is always there, is left out. -/
structure Block where
  phis : ℕ
  instructions : List Instruction
  predecessors : List ℕ
  successors : List ℕ
  isLoopHeader : Bool

/-- The blocks in reverse postorder; the first one is the entry block. -/
structure Graph where
  blocks : List Block

/-- An instruction with its number and its block. -/
structure MInstruction extends Instruction where
  id : ℕ
  block : ℕ

/-- The answers to whether a load and a store may alias: all but `NoAlias`. -/
structure Answers where
  genericMightAlias : ℕ → ℕ → Bool
  mightAlias : ℕ → ℕ → Bool

namespace MInstruction

variable (ins : MInstruction)

/-- The instructions that are regarded as stores. -/
def IsStore : Prop := ins.aliasSet.isStore = true ∧ ins.canRecoverOnBailout = false

/-- The instructions that get a dependency. -/
def IsLoad : Prop :=
  ins.aliasSet.isNone = false ∧ ins.aliasSet.isStore = false ∧ ins.canRecoverOnBailout = false

instance : Decidable ins.IsStore := inferInstanceAs (Decidable (_ ∧ _))

instance : Decidable ins.IsLoad := inferInstanceAs (Decidable (_ ∧ _))

end MInstruction

namespace Graph

variable (graph : Graph)

def numBlocks : ℕ := graph.blocks.length

def block (b : ℕ) : Block := graph.blocks.getD b ⟨0, [], [], [], false⟩

/-! ## Numbers -/

/-- The number of the first phi, or of the first instruction. -/
def start : ℕ → ℕ
  | 0 => 0
  | b + 1 => start b + (graph.block b).phis + (graph.block b).instructions.length + 1

def firstInstruction (b : ℕ) : ℕ := graph.start b + (graph.block b).phis

def lastIns (b : ℕ) : ℕ := graph.firstInstruction b + (graph.block b).instructions.length

def instructions (b : ℕ) : List MInstruction :=
  (graph.block b).instructions.mapIdx fun k ins => ⟨ins, graph.firstInstruction b + k, b⟩

/-! ## Loops -/

def hasUniqueBackedge (header : ℕ) : Bool :=
  match (graph.block header).predecessors with
  | [_, _] => true
  | [_, fixup, _] => (graph.block fixup).predecessors.isEmpty
  | _ => false

def isLoopBackedge (b : ℕ) : Bool :=
  match (graph.block b).successors.getLast? with
  | none => false
  | some header => (graph.block header).isLoopHeader && graph.hasUniqueBackedge header &&
      (graph.block header).predecessors.getLast? == some b

/-- Whether there might be a way from `src` to `dest` without back edges. -/
def blockMightReach : ℕ → ℕ → ℕ → Bool
  | 0, _, _ => false
  | fuel + 1, src, dest =>
    if dest < src then false
    else if src = dest then true
    else
      match (graph.block src).successors with
      | [] => false
      | [successor] => if successor ≤ src then true else blockMightReach fuel successor dest
      | _ => true

end Graph

/-! ## The analysis -/

/-- What is kept of a store. -/
structure Store where
  id : ℕ
  block : ℕ

structure LoopAliasInfo where
  loopHeader : ℕ
  invariantLoads : List MInstruction

/-- The stores of each category, last first, the dependencies, and the loops, the innermost first. -/
structure State where
  stores : Fin NumCategories → List Store
  dependency : ℕ → Option ℕ
  loops : List LoopAliasInfo

def State.setDependency (s : State) (load dep : ℕ) : State :=
  { s with dependency := Function.update s.dependency load (some dep) }

/-- A load is added to the innermost loop if its dependency comes before the loop. -/
def addInvariantLoad (graph : Graph) (ins : MInstruction) (dep : ℕ) (s : State) : State :=
  match s.loops with
  | [] => s
  | info :: outer =>
    if dep < graph.firstInstruction info.loopHeader then
      { s with loops := { info with invariantLoads := info.invariantLoads ++ [ins] } :: outer }
    else s

namespace Answers

variable (answers : Answers) (graph : Graph)

def mayAlias (load store : ℕ) : Bool := answers.genericMightAlias load store && answers.mightAlias load store

variable (s : State)

/-- The most recent store of a category that the load may depend on. -/
def findStore (ins : MInstruction) (c : Fin NumCategories) : Option Store :=
  (s.stores c).find? fun store => answers.mayAlias ins.id store.id &&
    graph.blockMightReach (ins.block + 1) store.block ins.block

/-- The most recent store on which a load depends. -/
def lastStore (ins : MInstruction) : ℕ :=
  ins.aliasSet.categories.foldl (fun last c =>
    match answers.findStore graph s ins c with
    | none => last
    | some store => if last < store.id then store.id else last) (graph.firstInstruction 0)

def visitInstruction (ins : MInstruction) : State :=
  if ins.aliasSet.isNone = true then s
  else if ins.canRecoverOnBailout = true then s
  else if ins.aliasSet.isStore = true then
    { s with stores := fun c => if ins.aliasSet.flags c = true then ⟨ins.id, ins.block⟩ :: s.stores c
        else s.stores c }
  else
    let lastStore := answers.lastStore graph s ins
    addInvariantLoad graph ins lastStore (s.setDependency ins.id lastStore)

/-- Some store since the first instruction of the loop may alias the load. -/
def hasAlias (header : ℕ) (ins : MInstruction) : Bool :=
  ins.aliasSet.categories.any fun c =>
    ((s.stores c).takeWhile fun store => graph.firstInstruction header ≤ store.id).any fun store =>
      answers.mayAlias ins.id store.id

/-- One of the loads that are invariant in the loop so far; the loop has been left. -/
def resolveLoad (header : ℕ) (s : State) (ins : MInstruction) : State :=
  if answers.hasAlias graph s header ins = true then s.setDependency ins.id (graph.lastIns header)
  else
    match s.dependency ins.id with
    | none => s
    | some dep => addInvariantLoad graph ins dep s

/-- The end of a loop. -/
def visitBackedge : Option State :=
  match s.loops with
  | [] => none
  | info :: outer =>
    some (info.invariantLoads.foldl (answers.resolveLoad graph info.loopHeader) { s with loops := outer })

def enterLoop (b : ℕ) (s : State) : State :=
  if (graph.block b).isLoopHeader = true then { s with loops := ⟨b, []⟩ :: s.loops } else s

def visitBlock (b : ℕ) : Option State :=
  let s := (graph.instructions b).foldl (answers.visitInstruction graph) (enterLoop graph b s)
  if graph.isLoopBackedge b = true then answers.visitBackedge graph s else some s

/-- Every list of stores starts with the first instruction of the entry block. -/
def initial : State := ⟨fun _ => [⟨graph.firstInstruction 0, 0⟩], fun _ => none, []⟩

/-- `analyze`; allocation succeeds. -/
def analyze : Option (ℕ → Option ℕ) :=
  ((List.range graph.numBlocks).foldlM (answers.visitBlock graph) (initial graph)).map State.dependency

end Answers

end SpiderMonkey.AliasAnalysis
