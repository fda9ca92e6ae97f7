import Mathlib.Tactic

/-!
# Copying ranges of a list

What it means to overwrite a range of a list (`blit`), and the loops that do it one position after
another.  A loop that copies within the list is right if no position is written before it is read; one
that goes upwards to an overlapping range above repeats what lies between the two ranges.
-/

namespace RangeCopy

open List

variable {α β : Type*}

variable (l : List α)

def slice (s n : ℕ) : List α := (l.drop s).take n

/-- The elements from `d` on are replaced by `xs`. -/
def blit (d : ℕ) (xs : List α) : List α := l.take d ++ xs ++ l.drop (d + xs.length)

/-- The elements of `src` from `s` on go to `d`, unless one of the ranges does not fit. -/
def transfer (d : ℕ) (src : List α) (s n : ℕ) : Option (List α) :=
  if d + n ≤ l.length ∧ s + n ≤ src.length then some (blit l d (slice src s n)) else none

/-- The range repeats with period `p`. -/
def Repeats (s p n : ℕ) : Prop := ∀ i < n, l[s + i % p]? = l[s + i]?

/-- Write `f i` at `d + i`. -/
def writeInOrder (d : ℕ) (f : ℕ → α) (order : List ℕ) : List α :=
  order.foldl (fun l i => l.set (d + i) (f i)) l

def copyInOrder (d s : ℕ) (order : List ℕ) : List α :=
  order.foldl (fun l i => match l[s + i]? with
    | some x => l.set (d + i) x
    | none => l) l

variable {l xs : List α} {d s n i : ℕ} {f : ℕ → α}

lemma getElem?_eq_some_getD (x : α) (h : i < l.length) : l[i]? = some (l.getD i x) := by
  simp [h]

lemma set_eq_self {x : α} (h : l[i]? = some x) : l.set i x = l := by
  obtain ⟨hi, rfl⟩ := List.getElem?_eq_some_iff.1 h
  simp

lemma length_slice (h : s + n ≤ l.length) : (slice l s n).length = n := by
  rw [slice, length_take, length_drop]
  omega

lemma getElem?_slice (hi : i < n) : (slice l s n)[i]? = l[s + i]? := by
  simp [slice, getElem?_take_of_lt hi]

lemma getElem?_blit (h : d + xs.length ≤ l.length) : (blit l d xs)[i]? =
    if d ≤ i ∧ i < d + xs.length then xs[i - d]? else l[i]? := by
  have hd : (l.take d).length = d := by
    rw [length_take]
    omega
  rw [blit, append_assoc]
  by_cases hlt : i < d
  · rw [if_neg (by omega), getElem?_append_left (by omega), getElem?_take_of_lt hlt]
  · rw [getElem?_append_right (by omega), hd]
    by_cases hin : i < d + xs.length
    · rw [if_pos ⟨by omega, hin⟩, getElem?_append_left (by omega)]
    · rw [if_neg (by omega), getElem?_append_right (by omega), getElem?_drop]
      congr 1
      omega

lemma blit_nil : blit l d [] = l := by
  simp [blit]

lemma blit_append {ys : List α} (h : xs.length = ys.length) : blit (l ++ xs) l.length ys = l ++ ys := by
  rw [blit, take_left, drop_eq_nil_of_le (by rw [length_append]; omega), append_nil]

lemma slice_replicate {x : α} : slice (replicate n x) 0 n = replicate n x := by
  simp [slice]

lemma transfer_eq_some {src : List α} (hd : d + n ≤ l.length) (hs : s + n ≤ src.length) :
    transfer l d src s n = some (blit l d (slice src s n)) :=
  if_pos ⟨hd, hs⟩

lemma transfer_eq_none {src : List α} (h : l.length < d + n ∨ src.length < s + n) : transfer l d src s n = none :=
  if_neg (by omega)

lemma length_writeInOrder {order : List ℕ} : (writeInOrder l d f order).length = l.length := by
  induction order generalizing l with
  | nil => rfl
  | cons i order ih =>
    rw [writeInOrder, foldl_cons, ← writeInOrder, ih, length_set]

lemma length_copyInOrder {order : List ℕ} : (copyInOrder l d s order).length = l.length := by
  induction order generalizing l with
  | nil => rfl
  | cons i order ih =>
    rw [copyInOrder, foldl_cons, ← copyInOrder, ih]
    split
    · exact length_set
    · rfl

lemma getElem?_writeInOrder_range (h : d + n ≤ l.length) :
    (writeInOrder l d f (range n))[i]? = if d ≤ i ∧ i < d + n then some (f (i - d)) else l[i]? := by
  induction n with
  | zero =>
    rw [if_neg (by omega)]
    rfl
  | succ n ih =>
    have hlen : (writeInOrder l d f (range n)).length = l.length := length_writeInOrder
    have hstep : writeInOrder l d f (range (n + 1)) = (writeInOrder l d f (range n)).set (d + n) (f n) := by
      simp [writeInOrder, range_succ]
    rw [hstep, getElem?_set]
    by_cases heq : d + n = i
    · subst heq
      rw [if_pos rfl, if_pos (by omega), if_pos (by omega), Nat.add_sub_cancel_left]
    · rw [if_neg heq, ih (by omega)]
      exact if_congr (by omega) rfl rfl

theorem writeInOrder_range (h : d + n ≤ l.length) :
    writeInOrder l d f (range n) = blit l d ((range n).map f) := by
  have hlen : ((range n).map f).length = n := by simp
  refine ext_getElem? fun i => ?_
  rw [getElem?_writeInOrder_range h, getElem?_blit (by rw [hlen]; exact h), hlen]
  by_cases hi : d ≤ i ∧ i < d + n
  · rw [if_pos hi, if_pos hi, getElem?_map, getElem?_range (by omega)]
    rfl
  · simp [hi]

/-- The loop that writes what it finds elsewhere. -/
lemma writeInOrder_eq_blit_slice {src : List α} (hd : d + n ≤ l.length) (hs : s + n ≤ src.length)
    (hf : ∀ i < n, src[s + i]? = some (f i)) :
    writeInOrder l d f (range n) = blit l d (slice src s n) := by
  rw [writeInOrder_range hd]
  congr 1
  refine ext_getElem? fun i => ?_
  by_cases hi : i < n
  · simp [getElem?_range hi, getElem?_slice hi, hf i hi]
  · have hlen := length_slice hs
    rw [getElem?_eq_none (by rw [length_map, length_range]; omega), getElem?_eq_none (by omega)]

lemma writeInOrder_const {x : α} (hd : d + n ≤ l.length) :
    writeInOrder l d (fun _ => x) (range n) = blit l d (slice (replicate n x) 0 n) := by
  refine writeInOrder_eq_blit_slice hd (by simp) fun i hi => ?_
  simp [hi]

/-! ## Copying within a list -/

lemma copyInOrder_snoc {order : List ℕ} {x : α} (hx : (copyInOrder l d s order)[s + n]? = some x) :
    copyInOrder l d s (order ++ [n]) = (copyInOrder l d s order).set (d + n) x := by
  rw [copyInOrder, foldl_append]
  show (match (copyInOrder l d s order)[s + n]? with
    | some x => (copyInOrder l d s order).set (d + n) x
    | none => copyInOrder l d s order) = _
  rw [hx]

/-- Where the loop that copies upwards has found the element of position `i` of the range: an
overlapping range above repeats. -/
def origin (d s i : ℕ) : ℕ := if s < d then i % (d - s) else i

lemma origin_le : origin d s i ≤ i := by
  unfold origin
  split
  · exact Nat.mod_le _ _
  · exact le_rfl

lemma getElem?_copyInOrder_range (hs : s + n ≤ l.length) (hd : d + n ≤ l.length) :
    (copyInOrder l d s (range n))[i]? = if d ≤ i ∧ i < d + n then l[s + origin d s (i - d)]? else l[i]? := by
  induction n generalizing i with
  | zero =>
    rw [if_neg (by omega)]
    rfl
  | succ n ih =>
    have hlen : (copyInOrder l d s (range n)).length = l.length := length_copyInOrder
    -- what is read has been copied before if the ranges overlap
    have hread : (copyInOrder l d s (range n))[s + n]? = l[s + origin d s n]? := by
      rw [ih (by omega) (by omega)]
      unfold origin
      by_cases hsd : s < d
      · by_cases hin : d ≤ s + n
        · rw [if_pos (by omega), if_pos hsd, if_pos hsd]
          congr 2
          have hsub : n = s + n - d + (d - s) := by omega
          conv_rhs => rw [hsub]
          simp
        · rw [if_neg (by omega), if_pos hsd, Nat.mod_eq_of_lt (by omega)]
      · simp [hsd]
    have hlt : s + origin d s n < l.length := by
      have hle := @origin_le d s n
      omega
    rw [getElem?_eq_getElem hlt] at hread
    rw [range_succ, copyInOrder_snoc hread, getElem?_set]
    by_cases heq : d + n = i
    · subst heq
      rw [if_pos rfl, if_pos (by omega), if_pos (by omega), Nat.add_sub_cancel_left, getElem?_eq_getElem hlt]
    · rw [if_neg heq, ih (by omega) (by omega)]
      exact if_congr (by omega) rfl rfl

lemma getElem?_blit_slice (hs : s + n ≤ l.length) (hd : d + n ≤ l.length) :
    (blit l d (slice l s n))[i]? = if d ≤ i ∧ i < d + n then l[s + (i - d)]? else l[i]? := by
  have hlen := length_slice hs
  rw [getElem?_blit (by omega), hlen]
  by_cases hi : d ≤ i ∧ i < d + n
  · rw [if_pos hi, if_pos hi, getElem?_slice (by omega)]
  · simp [hi]

theorem copyInOrder_range_iff_origin (hs : s + n ≤ l.length) (hd : d + n ≤ l.length) :
    copyInOrder l d s (range n) = blit l d (slice l s n) ↔ ∀ i < n, l[s + origin d s i]? = l[s + i]? := by
  constructor
  · intro heq i hi
    have hget := congrArg (fun l => l[d + i]?) heq
    simp only [getElem?_copyInOrder_range hs hd, getElem?_blit_slice hs hd] at hget
    rwa [if_pos (by omega), if_pos (by omega), Nat.add_sub_cancel_left] at hget
  · intro h
    refine ext_getElem? fun i => ?_
    rw [getElem?_copyInOrder_range hs hd, getElem?_blit_slice hs hd]
    by_cases hi : d ≤ i ∧ i < d + n
    · simp [h (i - d) (by omega)]
    · simp [hi]

lemma blit_slice_self (hd : d + n ≤ l.length) : blit l d (slice l d n) = l := by
  refine ext_getElem? fun i => ?_
  rw [getElem?_blit_slice hd hd]
  split
  · next hi => rw [Nat.add_sub_cancel' hi.1]
  · rfl

/-- The loop that copies upwards is right for a range below. -/
theorem copyInOrder_range (hs : s + n ≤ l.length) (hd : d + n ≤ l.length) (hsd : d ≤ s) :
    copyInOrder l d s (range n) = blit l d (slice l s n) := by
  refine (copyInOrder_range_iff_origin hs hd).2 fun i _ => ?_
  rw [origin, if_neg (by omega)]

/-- The loop that copies upwards is right exactly if the range repeats with the distance to a range
above. -/
theorem copyInOrder_range_iff (hs : s + n ≤ l.length) (hd : d + n ≤ l.length) :
    copyInOrder l d s (range n) = blit l d (slice l s n) ↔ (s < d → Repeats l s (d - s) n) := by
  by_cases hsd : s < d
  · have horigin : ∀ i, origin d s i = i % (d - s) := fun i => if_pos hsd
    rw [copyInOrder_range_iff_origin hs hd]
    simp only [horigin, Repeats]
    exact ⟨fun h _ => h, fun h => h hsd⟩
  · exact iff_of_true (copyInOrder_range hs hd (by omega)) fun hlt => absurd hlt hsd

/-- The loop that copies downwards is right for a range above. -/
theorem copyInOrder_reverse (hs : s + n ≤ l.length) (hd : d + n ≤ l.length) (hsd : s < d) :
    copyInOrder l d s (range n).reverse = blit l d (slice l s n) := by
  induction n generalizing l with
  | zero =>
    rw [range_zero, slice, take_zero, blit_nil]
    rfl
  | succ n ih =>
    have hlt : s + n < l.length := by omega
    have hstep : copyInOrder l d s (range (n + 1)).reverse =
        copyInOrder (l.set (d + n) l[s + n]) d s (range n).reverse := by
      simp [range_succ, reverse_append, reverse_singleton, singleton_append, copyInOrder, foldl_cons, getElem?_eq_getElem hlt]
    rw [hstep, ih (by rw [length_set]; omega) (by rw [length_set]; omega)]
    refine ext_getElem? fun i => ?_
    rw [getElem?_blit_slice (by rw [length_set]; omega) (by rw [length_set]; omega), getElem?_blit_slice hs hd]
    by_cases hi : d ≤ i ∧ i < d + n
    · rw [if_pos hi, if_pos (by omega), getElem?_set_ne (by omega)]
    · rw [if_neg hi]
      by_cases heq : d + n = i
      · subst heq
        rw [if_pos (by omega), getElem?_set_self (by omega), Nat.add_sub_cancel_left, getElem?_eq_getElem hlt]
      · rw [if_neg (by omega), getElem?_set_ne heq]

end RangeCopy
