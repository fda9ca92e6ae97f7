import SpiderMonkey.StructuredClone.Writes

/-!
# The traversal of the graph

What a round of the writer's loop does when it succeeds, the shape of the stacks, and which objects have
been written in the end: those that can be reached without passing an object of the transfer list.
-/

namespace SpiderMonkey.StructuredClone

open LittleEndian Script Relation

variable {O : Type} [DecidableEq O] (cx : WriteContext O)

/-! ## Rounds -/

/-- What `startWriteDepth` does when it succeeds. -/
def WroteDepth : ℕ → CloneValue O → Writer O → Writer O → Prop
  | 0 => fun _ _ _ => False
  | depth + 1 => WroteWith cx (WroteDepth depth)

def Wrote : CloneValue O → Writer O → Writer O → Prop := WroteDepth cx 3

/-- The writer without the counts and entries that a round takes from it. -/
def Writer.take (w : Writer O) (counts : List ℕ) (ids : List Id) (vs : List (CloneValue O)) : Writer O :=
  { w with counts := counts, objectEntries := ids, otherEntries := vs }

/-- The writer without the object on top of its stack. -/
def Writer.close (objs : List O) (counts : List ℕ) (w : Writer O) : Writer O :=
  { w with objs := objs, counts := counts }

/-- What a round does, and whether there is another one. -/
inductive Round : Writer O → Bool → Writer O → Prop
  | done {w} (hobjs : w.objs = []) (hcounts : w.counts = []) : Round w false w
  | close {w obj objs counts} (hobjs : w.objs = obj :: objs) (hcounts : w.counts = 0 :: counts) :
    Round w true ((w.emit (pairBytes .SCTAG_END_OF_KEYS 0)).close objs counts)
  | pair {w obj objs count counts entries key val rest w₁ w'} (hobjs : w.objs = obj :: objs)
    (hcounts : w.counts = (count + 1) :: counts) (hobj : cx.object obj = .map entries)
    (hentries : w.otherEntries = key :: val :: rest)
    (hkey : Wrote cx key (w.take ((count - 1) :: counts) w.objectEntries rest) w₁)
    (hval : Wrote cx val w₁ w') : Round w true w'
  | single {w obj objs count counts key rest w'} (hobjs : w.objs = obj :: objs)
    (hcounts : w.counts = (count + 1) :: counts)
    (hobj : (∃ keys, cx.object obj = .set keys) ∨ ∃ slots parent, cx.object obj = .savedFrame slots parent)
    (hentries : w.otherEntries = key :: rest)
    (hkey : Wrote cx key (w.take (count :: counts) w.objectEntries rest) w') : Round w true w'
  | property {w obj objs count counts id ids val w₁ w'} (hobjs : w.objs = obj :: objs)
    (hcounts : w.counts = (count + 1) :: counts)
    (hobj : (∃ properties, cx.object obj = .plain properties) ∨
      ∃ length properties, cx.object obj = .array length properties)
    (hids : w.objectEntries = id :: ids) (hlookup : (cx.object obj).properties.lookup id = some val)
    (hkey : Wrote cx id.toValue (w.take (count :: counts) ids w.otherEntries) w₁)
    (hval : Wrote cx val w₁ w') : Round w true w'
  | gone {w obj objs count counts id ids} (hobjs : w.objs = obj :: objs)
    (hcounts : w.counts = (count + 1) :: counts)
    (hobj : (∃ properties, cx.object obj = .plain properties) ∨
      ∃ length properties, cx.object obj = .array length properties)
    (hids : w.objectEntries = id :: ids)
    (hlookup : (cx.object obj).properties.lookup id = none) :
    Round w true (w.take (count :: counts) ids w.otherEntries)

variable {cx}

namespace WriteOp

lemma ensures_startWriteDepth (depth : ℕ) (v : CloneValue O) (w : Writer O) :
    Script.Ensures (startWriteDepth cx depth v) w (fun _ => WroteDepth cx depth v w) fun _ _ => True := by
  induction depth generalizing v w with
  | zero => exact .stuck
  | succ depth ih => exact ensures_startWriteWith ih v w

lemma ensures_startWrite (v : CloneValue O) (w : Writer O) :
    Script.Ensures (startWrite cx v) w (fun _ => Wrote cx v w) fun _ _ => True :=
  ensures_startWriteDepth 3 v w

omit [DecidableEq O] in
lemma ensures_popOtherEntry (w : Writer O) : Script.Ensures (popOtherEntry : WriteOp O _) w
    (fun v w' => ∃ vs, w.otherEntries = v :: vs ∧ w' = { w with otherEntries := vs })
      fun _ _ => True := by
  refine .bind (.get ?_)
  cases h : w.otherEntries with
  | nil => exact .stuck
  | cons v vs => exact .bind (.modify (.pure ⟨vs, rfl, rfl⟩))

omit [DecidableEq O] in
lemma ensures_popObjectEntry (w : Writer O) : Script.Ensures (popObjectEntry : WriteOp O _) w
    (fun id w' => ∃ ids, w.objectEntries = id :: ids ∧ w' = { w with objectEntries := ids })
      fun _ _ => True := by
  refine .bind (.get ?_)
  cases h : w.objectEntries with
  | nil => exact .stuck
  | cons id ids => exact .bind (.modify (.pure ⟨ids, rfl, rfl⟩))

lemma ensures_writeEntry {w : Writer O} {obj : O} {objs : List O} {count : ℕ} {counts : List ℕ}
    (hobjs : w.objs = obj :: objs) (hcounts : w.counts = (count + 1) :: counts) :
    Script.Ensures (writeEntry cx obj count counts) w (fun _ => Round cx w true) fun _ _ => True := by
  refine .bind (.modify ?_)
  have hsingle (hobj : (∃ keys, cx.object obj = .set keys) ∨ ∃ slots parent, cx.object obj = .savedFrame slots parent) :
      Script.Ensures (popOtherEntry >>= startWrite cx) { w with counts := count :: counts }
        (fun _ => Round cx w true) fun _ _ => True := by
    refine .bind ((ensures_popOtherEntry _).imp ?_ fun _ _ h => h)
    rintro key w₁ ⟨rest, hentries, rfl⟩
    exact (ensures_startWrite key _).imp (fun _ _ h => .single hobjs hcounts hobj hentries h) fun _ _ h => h
  have hproperty (properties : List (Id × CloneValue O)) (hproperties : (cx.object obj).properties = properties)
      (hobj : (∃ properties, cx.object obj = .plain properties) ∨
        ∃ length properties, cx.object obj = .array length properties) :
      Script.Ensures (popObjectEntry >>= fun id => writeProperty cx id properties)
        { w with counts := count :: counts } (fun _ => Round cx w true) fun _ _ => True := by
    refine .bind ((ensures_popObjectEntry _).imp ?_ fun _ _ h => h)
    rintro id w₁ ⟨ids, hids, rfl⟩
    unfold writeProperty
    cases hlookup : properties.lookup id with
    | none => exact .pure (.gone hobjs hcounts hobj hids (hproperties ▸ hlookup))
    | some val =>
      refine .bind ((ensures_startWrite _ _).imp (fun _ w₁ h₁ => ?_) fun _ _ h => h)
      exact (ensures_startWrite val w₁).imp (fun _ _ h =>
        .property hobjs hcounts hobj hids (hproperties ▸ hlookup) h₁ h) fun _ _ h => h
  cases hobj : cx.object obj with
  | map entries =>
    refine .bind ((ensures_popOtherEntry _).imp ?_ fun _ _ h => h)
    rintro key w₁ ⟨rest, hkey, rfl⟩
    refine .bind (.modify (.bind ((ensures_popOtherEntry _).imp ?_ fun _ _ h => h)))
    rintro val w₂ ⟨rest', hval, rfl⟩
    obtain rfl : rest = val :: rest' := hval
    refine .bind ((ensures_startWrite key _).imp (fun _ w₃ h₃ => ?_) fun _ _ h => h)
    exact (ensures_startWrite val w₃).imp (fun _ _ h => .pair hobjs hcounts hobj hkey h₃ h) fun _ _ h => h
  | set keys => exact hsingle (.inl ⟨keys, hobj⟩)
  | savedFrame slots parent => exact hsingle (.inr ⟨slots, parent, hobj⟩)
  | plain properties => exact hproperty properties (congrArg _ hobj) (.inl ⟨properties, hobj⟩)
  | array length properties =>
    exact hproperty properties (congrArg _ hobj) (.inr ⟨length, properties, hobj⟩)
  | _ => exact .stuck

lemma ensures_writeRound (w : Writer O) :
    Script.Ensures (writeRound cx) w (fun again => Round cx w again) fun _ _ => True := by
  refine .bind (.get ?_)
  cases hobjs : w.objs with
  | nil =>
    cases hcounts : w.counts with
    | nil => exact .pure (.done hobjs hcounts)
    | cons count counts => exact .stuck
  | cons obj objs =>
    cases hcounts : w.counts with
    | nil => exact .stuck
    | cons count counts =>
      cases count with
      | zero => exact (emits_writePair _ _).ensures_bind (.bind (.modify (.pure (.close hobjs hcounts))))
      | succ count =>
        exact .bind ((ensures_writeEntry hobjs hcounts).imp (fun _ _ h => .pure h) fun _ _ h => h)

end WriteOp

end SpiderMonkey.StructuredClone
