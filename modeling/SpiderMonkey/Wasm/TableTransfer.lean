import SpiderMonkey.Wasm.Instance

/-!
# Transfers to tables

What a transfer of references to a table gives, and the loops of the instance that make it.
-/

namespace SpiderMonkey.Wasm

open RangeCopy List Option Instance

/-- A transfer to a table from a source of references: functions become objects in a table of
objects.  `none` if the table cannot hold them. -/
def TableElems.transfer (fo : FuncObjects) (dst : TableElems) (d : ℕ) (src : TableElems) (s n : ℕ) :
    Option (Option TableElems) :=
  match dst, src with
  | .func l, .func m => some ((RangeCopy.transfer l d m s n).map .func)
  | .func _, .ref _ => none
  | .ref l, .ref m => some ((RangeCopy.transfer l d m s n).map .ref)
  | .ref l, .func m => some ((RangeCopy.transfer l d (m.map (getFuncRef fo)) s n).map .ref)

/-- References to the functions of a segment, as the table holds them. -/
def segmentElems (md : Module) (table : TableElems) (indices : List ℕ) : TableElems :=
  match table with
  | .func _ => .func (indices.map fun i =>
      if i = NullFuncIndex then ⟨none, none⟩ else (funcEntry md i).elem)
  | .ref _ => .ref (indices.map fun i => if i = NullFuncIndex then none else some (md.refFunc i))

/-- `n` times a reference, as the table holds it. -/
def repeatElem (fo : FuncObjects) (table : TableElems) (value : AnyRef) (n : ℕ) : TableElems :=
  match table with
  | .func _ => .func (List.replicate n (value.elim ⟨none, none⟩ fun fn =>
      (fo.funcCheckedCallEntry fn).elem))
  | .ref _ => .ref (List.replicate n value)

/-- The entries after those of `e`. -/
def TableElems.append : TableElems → TableElems → TableElems
  | .func l, .func m => .func (l ++ m)
  | .ref l, .ref m => .ref (l ++ m)
  | e, _ => e

/-- The entries repeat with period `p`. -/
def TableElems.Repeats (s p n : ℕ) : TableElems → Prop
  | .func l => RangeCopy.Repeats l s p n
  | .ref l => RangeCopy.Repeats l s p n

namespace TableElems

variable {fo : FuncObjects} {md : Module} {dst src e : TableElems} {d s n : ℕ} {value : AnyRef}

lemma transfer_inBounds (hd : d + n ≤ dst.length) (hs : s + n ≤ src.length)
    (hkind : dst.isFunction = true → src.isFunction = true) :
    ∃ e, dst.transfer fo d src s n = some (some e) := by
  cases dst with
  | func l =>
    cases src with
    | func m =>
      rw [transfer, transfer_eq_some hd hs]
      simp
    | ref m => exact absurd (hkind rfl) Bool.false_ne_true
  | ref l =>
    cases src with
    | func m =>
      rw [transfer, transfer_eq_some hd (hs.trans_eq (length_map _).symm)]
      simp
    | ref m =>
      rw [transfer, transfer_eq_some hd hs]
      simp

lemma transfer_outOfBounds (h : dst.length < d + n ∨ src.length < s + n)
    (hkind : dst.isFunction = true → src.isFunction = true) :
    dst.transfer fo d src s n = some none := by
  cases dst with
  | func l =>
    cases src with
    | func m =>
      rw [transfer, transfer_eq_none h]
      rfl
    | ref m => exact absurd (hkind rfl) Bool.false_ne_true
  | ref l =>
    cases src with
    | func m =>
      rw [transfer, transfer_eq_none (h.imp_right (length_map _).trans_lt)]
      rfl
    | ref m =>
      rw [transfer, transfer_eq_none h]
      rfl

/-! ## Copies -/

lemma loop_copy_other (hd : d + n ≤ dst.length) (hs : s + n ≤ src.length)
    (h : dst.transfer fo d src s n = some (some e)) :
    loop (List.range n) (fun i e => copy fo e src (d + i) (s + i)) dst = some e := by
  have hget : ∀ {α : Type} {m : List α} (x : α), s + n ≤ m.length →
      ∀ i < n, m[s + i]? = some (m.getD (s + i) x) := fun x hm i hi =>
    getElem?_eq_some_getD x (by omega)
  cases dst with
  | func l =>
    cases src with
    | func m =>
      have hm := @hget _ m ⟨none, none⟩ hs
      rw [transfer, transfer_eq_some hd hs] at h
      cases h
      rw [← writeInOrder_eq_blit_slice hd hs hm]
      exact loop_write (fun i hi l => by rw [copy, hm i (mem_range.1 hi)]; rfl) l
    | ref m => cases h
  | ref l =>
    cases src with
    | func m =>
      have hm := @hget _ m ⟨none, none⟩ hs
      have hm' : ∀ i < n, (m.map (getFuncRef fo))[s + i]? =
          some (getFuncRef fo (m.getD (s + i) ⟨none, none⟩)) := fun i hi => by
        rw [getElem?_map, hm i hi]
        rfl
      have hs' : s + n ≤ (m.map (getFuncRef fo)).length := by
        rw [length_map]
        exact hs
      rw [transfer, transfer_eq_some hd hs'] at h
      cases h
      rw [← writeInOrder_eq_blit_slice hd hs' hm']
      exact loop_write (fun i hi l => by rw [copy, hm i (mem_range.1 hi)]; rfl) l
    | ref m =>
      have hm := @hget _ m none hs
      rw [transfer, transfer_eq_some hd hs] at h
      cases h
      rw [← writeInOrder_eq_blit_slice hd hs hm]
      exact loop_write (fun i hi l => by rw [copy, hm i (mem_range.1 hi)]; rfl) l

/-- What does not look at the entries does the same to both kinds. -/
def rearrange (f : ∀ α : Type, List α → List α) : TableElems → TableElems
  | func l => func (f _ l)
  | ref l => ref (f _ l)

/-- The loop that copies within a table. -/
lemma loop_copy_self {order : List ℕ} (horder : ∀ i ∈ order, i < n) (hs : s + n ≤ dst.length) :
    loop order (fun i e => copy fo e e (d + i) (s + i)) dst =
      some (dst.rearrange fun _ l => copyInOrder l d s order) := by
  cases dst with
  | func l =>
    refine loop_copy (fun i hi => ?_) fun i l x hx => ?_
    · exact (Nat.add_lt_add_left (horder i hi) s).trans_le hs
    · rw [copy, hx]
      rfl
  | ref l =>
    refine loop_copy (fun i hi => ?_) fun i l x hx => ?_
    · exact (Nat.add_lt_add_left (horder i hi) s).trans_le hs
    · rw [copy, hx]
      rfl

lemma transfer_self (hd : d + n ≤ dst.length) (hs : s + n ≤ dst.length) :
    dst.transfer fo d dst s n = some (some (dst.rearrange fun _ l => blit l d (slice l s n))) := by
  cases dst with
  | func l => rw [transfer, transfer_eq_some hd hs, map_some, rearrange]
  | ref l => rw [transfer, transfer_eq_some hd hs, map_some, rearrange]

lemma loop_copy_reverse (hd : d + n ≤ dst.length) (hs : s + n ≤ dst.length) (hsd : s < d)
    (h : dst.transfer fo d dst s n = some (some e)) :
    loop (List.range n).reverse (fun i e => copy fo e e (d + i) (s + i)) dst = some e := by
  rw [transfer_self hd hs] at h
  rw [loop_copy_self (n := n) (fun i hi => mem_range.1 (mem_reverse.1 hi)) hs]
  cases dst with
  | func l => rwa [rearrange, copyInOrder_reverse hs hd hsd, ← some_inj]
  | ref l => rwa [rearrange, copyInOrder_reverse hs hd hsd, ← some_inj]

lemma transfer_noop (hd : d + n ≤ dst.length) : dst.transfer fo d dst d n = some (some dst) := by
  rw [transfer_self hd hd]
  cases dst with
  | func l => rw [rearrange, blit_slice_self hd]
  | ref l => rw [rearrange, blit_slice_self hd]

/-- Upwards within a table is right if the destination is not above, or the entries repeat. -/
lemma loop_copy_range (hd : d + n ≤ dst.length) (hs : s + n ≤ dst.length)
    (h : dst.transfer fo d dst s n = some (some e)) :
    ∃ e', loop (List.range n) (fun i e => copy fo e e (d + i) (s + i)) dst = some e' ∧
      (e' = e ↔ (s < d → dst.Repeats s (d - s) n)) := by
  rw [transfer_self hd hs] at h
  refine ⟨_, loop_copy_self (n := n) (fun i hi => mem_range.1 hi) hs, ?_⟩
  cases dst with
  | func l =>
    cases h
    simp only [rearrange, func.injEq, Repeats]
    exact copyInOrder_range_iff hs hd
  | ref l =>
    cases h
    simp only [rearrange, ref.injEq, Repeats]
    exact copyInOrder_range_iff hs hd

/-! ## Segments and fills -/

lemma initElem_func {i j : ℕ} (l : List FunctionTableElem) : initElem md i j (func l) = some (func (l.set i
      (if j = NullFuncIndex then ⟨none, none⟩ else (funcEntry md j).elem))) := by
  unfold initElem
  split
  · rfl
  · rfl

lemma initElem_ref {i j : ℕ} (l : List AnyRef) : initElem md i j (ref l) = some (ref (l.set i
      (if j = NullFuncIndex then none else some (md.refFunc j)))) := by
  unfold initElem
  split
  · rfl
  · rfl

lemma length_segmentElems {indices : List ℕ} : (segmentElems md dst indices).length = indices.length := by
  cases dst with
  | func l => exact length_map _
  | ref l => exact length_map _

lemma isFunction_segmentElems {indices : List ℕ} : (segmentElems md dst indices).isFunction = dst.isFunction := by
  cases dst with
  | func l => rfl
  | ref l => rfl

lemma initElems_transfer {seg : ElemSegment} (hd : d + n ≤ dst.length) (hs : s + n ≤ seg.elemFuncIndices.length)
    (h : dst.transfer fo d (segmentElems md dst seg.elemFuncIndices) s n = some (some e)) :
    initElems md seg d s n dst = some e := by
  have hget : ∀ i < n, seg.elemFuncIndices[s + i]? = some (seg.elemFuncIndices.getD (s + i) 0) :=
    fun i hi => getElem?_eq_some_getD 0 (by omega)
  cases dst with
  | func l =>
    rw [segmentElems, transfer, transfer_eq_some hd (by rw [length_map]; exact hs)] at h
    cases h
    rw [← writeInOrder_eq_blit_slice hd (by rw [length_map]; exact hs) (fun i hi => by
      rw [getElem?_map, hget i hi]
      rfl)]
    exact loop_write (fun i hi l => by
      rw [hget i (mem_range.1 hi), bind_some, initElem_func]) l
  | ref l =>
    rw [segmentElems, transfer, transfer_eq_some hd (by rw [length_map]; exact hs)] at h
    cases h
    rw [← writeInOrder_eq_blit_slice hd (by rw [length_map]; exact hs) (fun i hi => by
      rw [getElem?_map, hget i hi]
      rfl)]
    exact loop_write (fun i hi l => by
      rw [hget i (mem_range.1 hi), bind_some, initElem_ref]) l

lemma length_repeatElem : (repeatElem fo dst value n).length = n := by
  cases dst with
  | func l => exact length_replicate
  | ref l => exact length_replicate

lemma isFunction_repeatElem : (repeatElem fo dst value n).isFunction = dst.isFunction := by
  cases dst with
  | func l => rfl
  | ref l => rfl

lemma fillElems_transfer (hd : d + n ≤ dst.length) (h : dst.transfer md.toFuncObjects d
      (repeatElem md.toFuncObjects dst value n) 0 n = some (some e)) :
    fillElems md d n value dst = some e := by
  cases dst with
  | func l =>
    rw [repeatElem, transfer, transfer_eq_some hd (by simp)] at h
    cases h
    exact (fillFuncRef_func l).trans (congrArg (fun l => some (func l)) (writeInOrder_const hd))
  | ref l =>
    rw [repeatElem, transfer, transfer_eq_some hd (by simp)] at h
    cases h
    exact congrArg (fun l => some (ref l)) (writeInOrder_const hd)

lemma resize_eq_append : dst.resize n = dst.append (repeatElem fo dst none n) := by
  cases dst with
  | func l => rfl
  | ref l => rfl

lemma transfer_resize : (dst.resize n).transfer fo dst.length (repeatElem fo (dst.resize n) value n) 0 n = some
      (some (dst.append (repeatElem fo dst value n))) := by
  have hlen : ∀ {α : Type} (l : List α) (x y : α),
      RangeCopy.transfer (l ++ List.replicate n x) l.length (List.replicate n y) 0 n =
        some (l ++ List.replicate n y) := fun l x y => by
    rw [transfer_eq_some, slice_replicate, blit_append]
    · simp
    · simp
    · simp
  cases dst with
  | func l => exact congrArg (fun r => some (Option.map func r)) (hlen l _ _)
  | ref l => exact congrArg (fun r => some (Option.map ref r)) (hlen l _ _)

end TableElems

/-! ## Tables -/

/-- May the table grow? -/
def CanGrow (elems : TableElems) (maximum : Option ℕ) (delta : ℕ) (reallocOk : Bool) : Prop :=
  delta = 0 ∨ elems.length + delta ≤ MaxTableLength ∧ (∀ m ∈ maximum, elems.length + delta ≤ m) ∧ reallocOk = true

lemma grow_of_canGrow {t : Table} {delta : ℕ} {ok : Bool} (h : CanGrow t.elems t.maximum delta ok) : ∃ t' : Table,
      t.grow delta ok = (t.length, t') ∧ t'.elems = t.elems.resize delta ∧ t'.maximum = t.maximum := by
  unfold Table.grow
  by_cases hzero : delta = 0
  · subst hzero
    refine ⟨t, if_pos rfl, ?_, rfl⟩
    cases t.elems with
    | func l => exact congrArg _ (append_nil l).symm
    | ref l => exact congrArg _ (append_nil l).symm
  · obtain ⟨hmax, hmaximum, hok⟩ := h.resolve_left hzero
    have hlt : t.length + delta < 2 ^ 32 := lt_of_le_of_lt hmax (by decide)
    have hmaximum' : ∀ m ∈ t.maximum, t.length + delta ≤ m := hmaximum
    have hmax' : t.length + delta ≤ MaxTableLength := hmax
    rw [if_neg hzero, dif_pos ⟨hlt, hmax'⟩, dif_pos hmaximum', if_pos hok]
    exact ⟨_, rfl, rfl, rfl⟩

lemma grow_of_not_canGrow {t : Table} {delta : ℕ} {ok : Bool}
    (h : ¬ CanGrow t.elems t.maximum delta ok) : t.grow delta ok = (Table.growFailed, t) := by
  unfold Table.grow
  rw [if_neg fun hzero => h (.inl hzero)]
  split
  · next hmax =>
    split
    · next hmaximum => exact if_neg fun hok => h (.inr ⟨hmax.2, hmaximum, hok⟩)
    · rfl
  · rfl

end SpiderMonkey.Wasm
