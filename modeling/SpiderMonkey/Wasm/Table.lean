import SpiderMonkey.Lib.RangeCopy

/-!
# WebAssembly tables

A table holds functions, as pairs of a code pointer and an instance, or objects.  `none` is a failed
assertion.  Function objects are numbers; how they are made is left open.
-/

namespace SpiderMonkey.Wasm

open RangeCopy List

def MaxTableLength : ℕ := 10000000

/-- Both pointers are null in an element without function. -/
structure FunctionTableElem where
  code : Option ℕ
  tls : Option ℕ
  deriving DecidableEq

/-- An object, or null. -/
abbrev AnyRef : Type := Option ℕ

/-- The code of a function together with its instance. -/
structure FuncEntry where
  code : ℕ
  tls : ℕ
  deriving DecidableEq

def FuncEntry.elem (f : FuncEntry) : FunctionTableElem := ⟨some f.code, some f.tls⟩

/-- What a table asks of functions. -/
structure FuncObjects where
  /-- The function object of an element, from its code pointer. -/
  getExportedFunction : ℕ → Option ℕ → ℕ
  /-- The checked call entry of a function object. -/
  funcCheckedCallEntry : ℕ → FuncEntry

/-- Either `functions_` or `objects_` has data. -/
inductive TableElems
  | func (functions : List FunctionTableElem)
  | ref (objects : List AnyRef)
  deriving DecidableEq

namespace TableElems

def isFunction : TableElems → Bool
  | func _ => true
  | ref _ => false

def length : TableElems → ℕ
  | func l => l.length
  | ref l => l.length

/-- The function object of an element. -/
def getFuncRef (fo : FuncObjects) (elem : FunctionTableElem) : AnyRef :=
  elem.code.map fun code => fo.getExportedFunction code elem.tls

def setFuncRef (index : ℕ) (f : FuncEntry) : TableElems → Option TableElems
  | func l => some (func (l.set index f.elem))
  | ref _ => none

def fillAnyRef (index fillCount : ℕ) (r : AnyRef) : TableElems → Option TableElems
  | func _ => none
  | ref l => some (ref (writeInOrder l index (fun _ => r) (List.range fillCount)))

def setNull (index : ℕ) : TableElems → Option TableElems
  | func l => some (func (l.set index ⟨none, none⟩))
  | ref l => fillAnyRef index 1 none (ref l)

/-- Runs `body` for the given values of the loop counter. -/
def loop (order : List ℕ) (body : ℕ → TableElems → Option TableElems) (e : TableElems) : Option TableElems :=
  order.foldlM (fun e i => body i e) e

def fillFuncRef (fo : FuncObjects) (index fillCount : ℕ) (r : AnyRef) (e : TableElems) : Option TableElems :=
  match e, r with
  | ref _, _ => none
  | func l, none => loop (List.range fillCount) (fun i => setNull (index + i)) (func l)
  | func l, some fn =>
    loop (List.range fillCount) (fun i => setFuncRef (index + i) (fo.funcCheckedCallEntry fn)) (func l)

/-- `Table::copy` of one element; a downcast is a crash. -/
def copy (fo : FuncObjects) (dst src : TableElems) (dstIndex srcIndex : ℕ) : Option TableElems :=
  match dst, src with
  | func l, func m => m[srcIndex]?.map fun elem => func (l.set dstIndex elem)
  | func _, ref _ => none
  | ref l, ref m => m[srcIndex]?.bind fun r => fillAnyRef dstIndex 1 r (ref l)
  | ref l, func m => m[srcIndex]?.bind fun elem => fillAnyRef dstIndex 1 (getFuncRef fo elem) (ref l)

/-- The new elements are null. -/
def resize (delta : ℕ) : TableElems → TableElems
  | func l => func (l ++ List.replicate delta ⟨none, none⟩)
  | ref l => ref (l ++ List.replicate delta none)

end TableElems

namespace TableElems

variable {fo : FuncObjects} {e e' src : TableElems} {d s i j n : ℕ} {r : AnyRef} {f : FuncEntry}

/-! ## Lengths -/

lemma length_setFuncRef (h : e.setFuncRef i f = some e') : e'.length = e.length := by
  cases e with
  | func l =>
    cases h
    exact length_set
  | ref l => cases h

lemma length_fillAnyRef (h : e.fillAnyRef i n r = some e') : e'.length = e.length := by
  cases e with
  | func l => cases h
  | ref l =>
    cases h
    exact length_writeInOrder

lemma length_setNull (h : e.setNull i = some e') : e'.length = e.length := by
  cases e with
  | func l =>
    cases h
    exact length_set
  | ref l => exact length_fillAnyRef h

lemma length_loop {order : List ℕ} {body : ℕ → TableElems → Option TableElems}
    (hbody : ∀ i e e', body i e = some e' → e'.length = e.length) (h : loop order body e = some e') :
    e'.length = e.length := by
  induction order generalizing e with
  | nil =>
    cases h
    rfl
  | cons i order ih =>
    obtain ⟨e₁, he₁, hrest⟩ := Option.bind_eq_some_iff.1 h
    exact (ih hrest).trans (hbody i e e₁ he₁)

lemma length_fillFuncRef (h : e.fillFuncRef fo i n r = some e') : e'.length = e.length := by
  cases e with
  | func l =>
    cases r with
    | none => exact length_loop (fun _ _ _ => length_setNull) h
    | some fn => exact length_loop (fun _ _ _ => length_setFuncRef) h
  | ref l => cases h

lemma length_copy (h : copy fo e src i j = some e') : e'.length = e.length := by
  cases e with
  | func l =>
    cases src with
    | func m =>
      obtain ⟨elem, _, rfl⟩ := Option.map_eq_some_iff.1 h
      exact length_set
    | ref m => cases h
  | ref l =>
    cases src with
    | func m =>
      obtain ⟨elem, _, hfill⟩ := Option.bind_eq_some_iff.1 h
      exact length_fillAnyRef hfill
    | ref m =>
      obtain ⟨elem, _, hfill⟩ := Option.bind_eq_some_iff.1 h
      exact length_fillAnyRef hfill

lemma length_resize : (e.resize n).length = e.length + n := by
  cases e with
  | func l => exact List.length_append.trans (congrArg _ length_replicate)
  | ref l => exact List.length_append.trans (congrArg _ length_replicate)

/-! ## Loops over the entries -/

lemma loop_cons {order : List ℕ} {body : ℕ → TableElems → Option TableElems}
    (h : body i e = some e') : loop (i :: order) body e = loop order body e' := by
  simp [loop, h]

lemma loop_write {α : Type} {mk : List α → TableElems} {order : List ℕ}
    {body : ℕ → TableElems → Option TableElems} {g : ℕ → α}
    (hbody : ∀ i ∈ order, ∀ l, body i (mk l) = some (mk (l.set (d + i) (g i)))) (l : List α) :
    loop order body (mk l) = some (mk (writeInOrder l d g order)) := by
  induction order generalizing l with
  | nil => rfl
  | cons i order ih =>
    rw [loop_cons (hbody i mem_cons_self l), ih fun j hj l => hbody j (mem_cons_of_mem _ hj) l]
    rfl

lemma loop_copy {α : Type} {mk : List α → TableElems} {order : List ℕ}
    {body : ℕ → TableElems → Option TableElems} {l : List α} (hs : ∀ i ∈ order, s + i < l.length)
    (hbody : ∀ i (l : List α) x, l[s + i]? = some x → body i (mk l) = some (mk (l.set (d + i) x))) :
    loop order body (mk l) = some (mk (copyInOrder l d s order)) := by
  induction order generalizing l with
  | nil => rfl
  | cons i order ih =>
    have hx := getElem?_eq_getElem (hs i mem_cons_self)
    rw [loop_cons (hbody i l _ hx), ih fun j hj => by
      rw [length_set]
      exact hs j (mem_cons_of_mem _ hj)]
    rw [copyInOrder, copyInOrder, foldl_cons, hx]

lemma fillFuncRef_func (l : List FunctionTableElem) :
    fillFuncRef fo i n r (func l) = some (func (writeInOrder l i (fun _ => r.elim ⟨none, none⟩ fun fn =>
        (fo.funcCheckedCallEntry fn).elem) (List.range n))) := by
  cases r with
  | none => exact loop_write (fun _ _ _ => rfl) l
  | some fn => exact loop_write (fun _ _ _ => rfl) l

end TableElems

structure Table where
  elems : TableElems
  maximum : Option ℕ
  length_le : elems.length ≤ MaxTableLength
  length_le_maximum : ∀ m ∈ maximum, elems.length ≤ m

namespace Table

def length (t : Table) : ℕ := t.elems.length

def update (t : Table) (e : TableElems) (h : e.length = t.elems.length) : Table where
  elems := e
  maximum := t.maximum
  length_le := h ▸ t.length_le
  length_le_maximum := h ▸ t.length_le_maximum

/-- What keeps the number of entries keeps the limits. -/
def modify (t : Table) (f : TableElems → Option TableElems)
    (hf : ∀ e', f t.elems = some e' → e'.length = t.elems.length) : Option Table :=
  match h : f t.elems with
  | some e => some (t.update e (hf e h))
  | none => none

def copy (fo : FuncObjects) (t srcTable : Table) (dstIndex srcIndex : ℕ) : Option Table :=
  t.modify (fun e => TableElems.copy fo e srcTable.elems dstIndex srcIndex)
    fun _ => TableElems.length_copy

/-- `uint32_t(-1)`. -/
def growFailed : ℕ := 2 ^ 32 - 1

/-- `Table::grow`, where `reallocOk` says whether there is memory.  The result is the old length or
`growFailed`. -/
def grow (t : Table) (delta : ℕ) (reallocOk : Bool) : ℕ × Table :=
  if delta = 0 then (t.length, t)
  else if hmax : t.length + delta < 2 ^ 32 ∧ t.length + delta ≤ MaxTableLength then
    if hmaximum : ∀ m ∈ t.maximum, t.length + delta ≤ m then
      if reallocOk then
        (t.length, { elems := t.elems.resize delta
                     maximum := t.maximum
                     length_le := TableElems.length_resize ▸ hmax.2
                     length_le_maximum := TableElems.length_resize ▸ hmaximum })
      else (growFailed, t)
    else (growFailed, t)
  else (growFailed, t)

variable {t t' : Table}

lemma eq_of_elems (h : t.elems = t'.elems) (hm : t.maximum = t'.maximum) : t = t' := by
  cases t
  cases t'
  cases h
  cases hm
  rfl

lemma modify_eq_some {f : TableElems → Option TableElems} {e : TableElems}
    {hf : ∀ e', f t.elems = some e' → e'.length = t.elems.length} (h : f t.elems = some e) :
    t.modify f hf = some (t.update e (hf e h)) := by
  unfold modify
  split
  · next e' he' => exact congrArg some (eq_of_elems (Option.some.inj (he'.symm.trans h)) rfl)
  · next hnone => exact absurd (h.symm.trans hnone) (Option.some_ne_none e)

end Table

end SpiderMonkey.Wasm
