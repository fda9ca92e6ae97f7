import SpiderMonkey.Lib.LinkedList
import SpiderMonkey.Lib.Tarjan

/-!
# Strongly connected components of the garbage collector

`ComponentFinder` runs Tarjan's algorithm on nodes that carry its data: two links, which serve the
stack of the search first and the list of results afterwards, and two marks, which are unsigned 32-bit
numbers.  When the native stack runs out, or when the caller asks for it, the search only collects
nodes, and all that are on the stack in the end form one group.
-/

namespace SpiderMonkey

structure ComponentFinder (N : Type) where
  gcNextGraphNode : N → Option N
  gcNextGraphComponent : N → Option N
  gcDiscoveryTime : N → BitVec 32
  gcLowLink : N → BitVec 32
  clock : BitVec 32
  stack : Option N
  firstComponent : Option N
  cur : Option N
  stackFull : Bool
  /-- The number of checks of the native stack so far. -/
  stackChecks : ℕ

namespace ComponentFinder

open Function

/-- The mark of an unprocessed vertex. -/
def Undefined : BitVec 32 := 0#32

/-- The mark of a processed vertex that is no longer on the stack. -/
def Finished : BitVec 32 := -1#32

/-- `std::min` on unsigned numbers. -/
def unsignedMin (a b : BitVec 32) : BitVec 32 := if b.toNat < a.toNat then b else a

variable {N : Type} [DecidableEq N]

variable (f : ComponentFinder N)

/-- A node is marked with the clock and put on the stack. -/
def push (v : N) : ComponentFinder N :=
  { f with
    gcDiscoveryTime := update f.gcDiscoveryTime v f.clock
    gcLowLink := update f.gcLowLink v f.clock
    clock := f.clock + 1#32
    gcNextGraphNode := update f.gcNextGraphNode v f.stack
    stack := some v }

/-- `stackFull || !JS_CHECK_STACK_SIZE(..)`, where `stackOk` answers the checks in turn. -/
def checkStack (stackOk : ℕ → Bool) (f : ComponentFinder N) : ComponentFinder N :=
  if f.stackFull then f
  else { f with stackFull := !stackOk f.stackChecks, stackChecks := f.stackChecks + 1 }

/-- Lower the low link of the current node. -/
def lowerLink (c : BitVec 32) : Option (ComponentFinder N) :=
  match f.cur with
  | none => none
  | some u =>
    some { f with gcLowLink := update f.gcLowLink u (unsignedMin (f.gcLowLink u) c) }

def addEdgeTo (processNode : N → ComponentFinder N → Option (ComponentFinder N)) (w : N)
    (f : ComponentFinder N) : Option (ComponentFinder N) :=
  if f.gcDiscoveryTime w = Undefined then do
    let f ← processNode w f
    f.lowerLink (f.gcLowLink w)
  else if f.gcDiscoveryTime w ≠ Finished then f.lowerLink (f.gcDiscoveryTime w)
  else some f

/-- The edges that are left of the current node. -/
def addEdges (processNode : N → ComponentFinder N → Option (ComponentFinder N)) :
    List N → ComponentFinder N → Option (ComponentFinder N)
  | [], f => some f
  | w :: edges, f => do
    let f ← addEdgeTo processNode w f
    addEdges processNode edges f

/-- Move a node from the top of the stack to the front of the results. -/
def popNode (w : N) (nextComponent : Option N) : ComponentFinder N :=
  { f with
    stack := f.gcNextGraphNode w
    gcDiscoveryTime := update f.gcDiscoveryTime w Finished
    gcNextGraphComponent := update f.gcNextGraphComponent w nextComponent
    gcNextGraphNode := update f.gcNextGraphNode w f.firstComponent
    firstComponent := some w }

/-- The loop that pops a component.  An empty stack fails the assertion, which leaves no result. -/
def popComponent (v : N) (nextComponent : Option N) : ℕ → ComponentFinder N → Option (ComponentFinder N)
  | 0, _ => none
  | limit + 1, f =>
    match f.stack with
    | none => none
    | some w =>
      let f := f.popNode w nextComponent
      if w = v then some f else popComponent v nextComponent limit f

def processNode (gcGraphEdges : N → List N) (stackOk : ℕ → Bool) (limit : ℕ) :
    ℕ → N → ComponentFinder N → Option (ComponentFinder N)
  | 0, _, _ => none
  | fuel + 1, v, f =>
    let f := (f.push v).checkStack stackOk
    if f.stackFull then some f
    else do
      let old := f.cur
      let f ← addEdges (processNode gcGraphEdges stackOk limit fuel) (gcGraphEdges v)
        { f with cur := some v }
      let f := { f with cur := old }
      if f.stackFull then return f
      else if f.gcLowLink v = f.gcDiscoveryTime v then popComponent v f.firstComponent limit f
      else return f

def addNode (gcGraphEdges : N → List N) (stackOk : ℕ → Bool) (limit : ℕ) (v : N)
    (f : ComponentFinder N) : Option (ComponentFinder N) :=
  if f.gcDiscoveryTime v = Undefined then
    if f.gcLowLink v = Undefined then processNode gcGraphEdges stackOk limit limit v f else none
  else some f

/-- The loop of `getResultsList` that puts all that is on the stack into one component. -/
def dumpStack (firstGoodComponent : Option N) : ℕ → ComponentFinder N → Option (ComponentFinder N)
  | 0, _ => none
  | limit + 1, f =>
    match f.stack with
    | none => some f
    | some v =>
      dumpStack firstGoodComponent limit
        { f with
          stack := f.gcNextGraphNode v
          gcNextGraphComponent := update f.gcNextGraphComponent v firstGoodComponent
          gcNextGraphNode := update f.gcNextGraphNode v f.firstComponent
          firstComponent := some v }

/-- The loop of `getResultsList` that resets the marks. -/
def resetMarks : ℕ → Option N → ComponentFinder N → Option (ComponentFinder N)
  | 0, _, _ => none
  | _ + 1, none, f => some f
  | limit + 1, some v, f =>
    resetMarks limit (f.gcNextGraphNode v)
      { f with
        gcDiscoveryTime := update f.gcDiscoveryTime v Undefined
        gcLowLink := update f.gcLowLink v Undefined }

/-- The first part of `getResultsList`. -/
def takeStack (limit : ℕ) (f : ComponentFinder N) : Option (ComponentFinder N) :=
  if f.stackFull then
    (dumpStack f.firstComponent limit f).map fun f => { f with stackFull := false }
  else some f

def getResultsList (limit : ℕ) (f : ComponentFinder N) : Option (Option N × ComponentFinder N) := do
  let f ← takeStack limit f
  if f.stack = none then do
    let result := f.firstComponent
    let f ← resetMarks limit result { f with firstComponent := none }
    return (result, f)
  else none

/-- What a caller does before it asks for the results. -/
inductive Call (N : Type) where
  | addNode (v : N)
  | useOneComponent

def call (gcGraphEdges : N → List N) (stackOk : ℕ → Bool) (limit : ℕ) :
    Call N → ComponentFinder N → Option (ComponentFinder N)
  | .addNode v, f => f.addNode gcGraphEdges stackOk limit v
  | .useOneComponent, f => some { f with stackFull := true }

def calls (gcGraphEdges : N → List N) (stackOk : ℕ → Bool) (limit : ℕ) :
    List (Call N) → ComponentFinder N → Option (ComponentFinder N)
  | [], f => some f
  | c :: cs, f => do
    let f ← call gcGraphEdges stackOk limit c f
    calls gcGraphEdges stackOk limit cs f

/-! ## The invariant -/

omit [DecidableEq N]

/-- The edges as a relation. -/
def Edge (gcGraphEdges : N → List N) (v w : N) : Prop := w ∈ gcGraphEdges v

def index (x : N) : ℕ := (f.gcDiscoveryTime x).toNat

/-- The nodes of each group point to the first node of the following one. -/
def Linked (gcNextGraphComponent : N → Option N) : List (List N) → Prop
  | [] => True
  | g :: gs => g ≠ [] ∧ (∀ x ∈ g, gcNextGraphComponent x = gs.flatten.head?) ∧ Linked gcNextGraphComponent gs

/-- The search with the stack `st`, bottom first, and the groups that are complete. -/
def searchState (st : List N) (groups : List (List N)) : Tarjan.State N :=
  ⟨st, {x | x ∈ groups.flatten}⟩

/-- No edge leads from a later group to an earlier one. -/
def Ordered (E : N → N → Prop) (groups : List (List N)) : Prop :=
  groups.Pairwise fun g g' => ∀ x ∈ g', ∀ y ∈ g, ¬E x y

/-- The finder in the middle of a search, at a time that is still a mark of its own. -/
structure Inv (E : N → N → Prop) (f : ComponentFinder N) (st : List N) (groups : List (List N)) (time : ℕ) : Prop where
  stack_list : IsList f.gcNextGraphNode f.stack st.reverse
  result_list : IsList f.gcNextGraphNode f.firstComponent groups.flatten
  nodup : groups.flatten.Nodup
  linked : Linked f.gcNextGraphComponent groups
  ordered : Ordered E groups
  components : ∀ g ∈ groups, ∃ v, {x | x ∈ g} = Tarjan.component E v
  valid : Tarjan.Valid E f.index (searchState st groups)
  undefined_iff : ∀ x, f.gcDiscoveryTime x = Undefined ↔ x ∉ (searchState st groups).visited
  lowLink_undefined : ∀ x, f.gcDiscoveryTime x = Undefined → f.gcLowLink x = Undefined
  finished : ∀ x ∈ groups.flatten, f.gcDiscoveryTime x = Finished
  clock_eq : f.clock = BitVec.ofNat 32 time
  time_pos : 0 < time
  index_lt : ∀ x ∈ st, f.index x < time
  time_le : time + remaining Set.univ (searchState st groups).visited ≤ 2 ^ 32

section Invariant

variable {E : N → N → Prop} {f : ComponentFinder N} {st : List N} {groups : List (List N)}
  {time : ℕ} {v : N}

lemma mem_visited {x : N} : x ∈ (searchState st groups).visited ↔ x ∈ st ∨ x ∈ groups.flatten := Iff.rfl

/-- While a node is left the clock has not wrapped around. -/
lemma Inv.clock_toNat [Finite N] (h : Inv E f st groups time)
    (hv : v ∉ (searchState st groups).visited) : f.clock.toNat = time := by
  have hpos : 0 < remaining Set.univ (searchState st groups).visited :=
    (Nat.zero_le _).trans_lt (remaining_insert_lt Set.finite_univ (Set.mem_univ v) hv)
  have hle := h.time_le
  rw [h.clock_eq, BitVec.toNat_ofNat]
  exact Nat.mod_eq_of_lt (by omega)

lemma Inv.push [DecidableEq N] [Finite N] (h : Inv E f st groups time) (hv : v ∉ (searchState st groups).visited) :
    Inv E (f.push v) (st ++ [v]) groups (time + 1) := by
  have hclock := h.clock_toNat hv
  have hst : v ∉ st := fun hs => hv (.inl hs)
  have hgroups : v ∉ groups.flatten := fun hs => hv (.inr hs)
  have hvisited : (searchState (st ++ [v]) groups).visited =
      insert v (searchState st groups).visited := Tarjan.State.visited_push (searchState st groups) v
  have hother : ∀ x, x ≠ v → (f.push v).gcDiscoveryTime x = f.gcDiscoveryTime x :=
    fun x hx => update_of_ne hx _ _
  have hself : (f.push v).gcDiscoveryTime v = f.clock := update_self _ _ _
  have hindex : ∀ x ∈ st, (f.push v).index x = f.index x := by
    intro x hx
    unfold index
    rw [hother x fun hxv => hst (hxv ▸ hx)]
  have hindex_self : (f.push v).index v = time := by
    unfold index
    rw [hself, hclock]
  constructor
  · rw [List.reverse_append, List.reverse_singleton, List.singleton_append]
    exact h.stack_list.push fun hs => hst (List.mem_reverse.mp hs)
  · exact h.result_list.update hgroups _
  · exact h.nodup
  · exact h.linked
  · exact h.ordered
  · exact h.components
  · refine h.valid.push hv hindex fun x hx => ?_
    rw [hindex x hx, hindex_self]
    exact h.index_lt x hx
  · intro x
    rw [hvisited, Set.mem_insert_iff, not_or]
    by_cases hx : x = v
    · subst hx
      rw [hself]
      refine ⟨fun h0 => ?_, fun hn => absurd rfl hn.1⟩
      rw [h0] at hclock
      exact absurd h.time_pos (by rw [← hclock]; decide)
    · rw [hother x hx, h.undefined_iff]
      exact (and_iff_right hx).symm
  · intro x hx
    by_cases hxv : x = v
    · subst hxv
      rw [hself] at hx
      rw [hx] at hclock
      exact absurd h.time_pos (by rw [← hclock]; decide)
    · rw [hother x hxv] at hx
      exact (update_of_ne hxv _ _).trans (h.lowLink_undefined x hx)
  · intro x hx
    rw [hother x fun hxv => hgroups (hxv ▸ hx)]
    exact h.finished x hx
  · change f.clock + 1#32 = _
    rw [h.clock_eq, BitVec.ofNat_add]
  · exact Nat.succ_pos time
  · intro x hx
    obtain hx | hx := List.mem_append.mp hx
    · rw [hindex x hx]
      exact Nat.lt_succ_of_lt (h.index_lt x hx)
    · simp [List.mem_singleton.mp hx, hindex_self]
  · have hlt := remaining_insert_lt Set.finite_univ (Set.mem_univ v) hv
    have hle := h.time_le
    rw [hvisited]
    omega

end Invariant

end ComponentFinder

end SpiderMonkey
