import Mathlib.Data.List.Basic
import Mathlib.Data.List.Pairwise

/-!
# Stable sorting

What a sorting algorithm does with any comparison, and what it does with a consistent one: elements are neither lost
nor duplicated, and if the comparison is that of a total preorder, then the result is sorted, and equivalent elements
stay in their order.
-/

namespace StableSort

open List Bool

variable {α : Type*}

structure IsTotalPreorder (le : α → α → Bool) : Prop where
  total : ∀ x y, le x y = true ∨ le y x = true
  trans : ∀ x y z, le x y = true → le y z = true → le x z = true

/-- Neither element has to come before the other one. -/
def equivalent (le : α → α → Bool) (x y : α) : Bool := le x y && le y x

abbrev Sorted (le : α → α → Bool) (xs : List α) : Prop := xs.Pairwise fun x y => le x y = true

/-- The elements of `xs` are rearranged into `ys`, which is stably sorted if `consistent` holds. -/
structure Rearranges (le : α → α → Bool) (consistent : Prop) (xs ys : List α) : Prop where
  perm : ys.Perm xs
  sorted : consistent → Sorted le ys
  stable : consistent → ∀ x, ys.filter (equivalent le x) = xs.filter (equivalent le x)

variable {le : α → α → Bool} {consistent : Prop} {xs ys zs : List α}

lemma IsTotalPreorder.of_not (hle : IsTotalPreorder le) {x y : α} (h : ¬ le x y = true) : le y x = true :=
  (hle.total x y).resolve_left h

lemma Rearranges.refl (h : consistent → Sorted le xs) : Rearranges le consistent xs xs := ⟨.refl _, h, fun _ _ => rfl⟩

lemma Rearranges.length_eq (h : Rearranges le consistent xs ys) : ys.length = xs.length := h.perm.length_eq

lemma Rearranges.insert (hle : consistent → IsTotalPreorder le) {item : α} (h : Rearranges le consistent xs (ys ++ zs))
    (hbefore : consistent → ∀ y ∈ ys.getLast?, le y item = true)
    (hafter : consistent → ∀ z ∈ zs, ¬ le z item = true) :
    Rearranges le consistent (xs ++ [item]) (ys ++ item :: zs) := by
  refine ⟨?_, fun hc => ?_, fun hc x => ?_⟩
  · exact (perm_middle.trans (h.perm.cons item)).trans (perm_append_singleton item xs).symm
  · obtain ⟨hys, hzs, hall⟩ := pairwise_append.1 (h.sorted hc)
    have hitem : ∀ y ∈ ys, le y item = true := by
      intro y hy
      obtain ⟨before, last, rfl⟩ := eq_nil_or_concat ys |>.resolve_left (ne_nil_of_mem hy)
      have hlast := hbefore hc last (by rw [concat_eq_append, getLast?_concat]; rfl)
      rw [concat_eq_append] at hy hys
      obtain hy | hy := mem_append.1 hy
      · exact (hle hc).trans _ _ _ ((pairwise_append.1 hys).2.2 y hy last (mem_singleton_self _)) hlast
      · obtain rfl := mem_singleton.1 hy
        exact hlast
    refine pairwise_append.2 ⟨hys, pairwise_cons.2 ⟨fun z hz => (hle hc).of_not (hafter hc z hz), hzs⟩, ?_⟩
    intro y hy z hz
    obtain rfl | hz := mem_cons.1 hz
    · exact hitem y hy
    · exact hall y hy z hz
  · rw [filter_append, filter_append, ← h.stable hc x, filter_append, append_assoc]
    congr 1
    by_cases hx : equivalent le x item = true
    · -- What is equivalent to the item is not after it.
      have hnone : zs.filter (equivalent le x) = [] := by
        refine filter_eq_nil_iff.2 fun z hz hxz => hafter hc z hz ?_
        have hzx := (and_eq_true_iff.1 hxz).2
        exact (hle hc).trans _ _ _ hzx (and_eq_true_iff.1 hx).1
      simp [filter_cons_of_pos hx, hnone]
    · simp [filter_cons_of_neg hx]

/-! ## Merging

The result of merging two lists is a rearrangement of their concatenation, if both are sorted. -/

/-- `zs` is what two lists are merged into. -/
abbrev Merges (le : α → α → Bool) (consistent : Prop) (xs ys zs : List α) : Prop :=
  Rearranges le (consistent ∧ Sorted le xs ∧ Sorted le ys) (xs ++ ys) zs

lemma Merges.nil_left (ys : List α) : Merges le consistent [] ys ys := .refl fun h => h.2.2

lemma Merges.nil_right (xs : List α) : Merges le consistent xs [] xs := by
  rw [Merges, append_nil]
  exact .refl fun h => h.2.1

lemma Merges.take_left (hle : consistent → IsTotalPreorder le) {x y : α} (h : Merges le consistent xs (y :: ys) zs)
    (hxy : consistent → le x y = true) : Merges le consistent (x :: xs) (y :: ys) (x :: zs) := by
  refine ⟨h.perm.cons x, fun ⟨hc, hxs, hys⟩ => ?_, fun ⟨hc, hxs, hys⟩ a => ?_⟩
  · obtain ⟨hx, hxs⟩ := pairwise_cons.1 hxs
    refine pairwise_cons.2 ⟨fun z hz => ?_, h.sorted ⟨hc, hxs, hys⟩⟩
    obtain hz | hz := mem_append.1 (h.perm.mem_iff.1 hz)
    · exact hx z hz
    · obtain rfl | hz := mem_cons.1 hz
      · exact hxy hc
      · exact (hle hc).trans _ _ _ (hxy hc) ((pairwise_cons.1 hys).1 z hz)
  · simp [filter_cons, h.stable ⟨hc, (pairwise_cons.1 hxs).2, hys⟩ a]

lemma Merges.take_right (hle : consistent → IsTotalPreorder le) {x y : α} (h : Merges le consistent (x :: xs) ys zs)
    (hxy : consistent → ¬ le x y = true) : Merges le consistent (x :: xs) (y :: ys) (y :: zs) := by
  refine ⟨(h.perm.cons y).trans perm_middle.symm, fun ⟨hc, hxs, hys⟩ => ?_, fun ⟨hc, hxs, hys⟩ a => ?_⟩
  · obtain ⟨hy, hys⟩ := pairwise_cons.1 hys
    have hyx := (hle hc).of_not (hxy hc)
    refine pairwise_cons.2 ⟨fun z hz => ?_, h.sorted ⟨hc, hxs, hys⟩⟩
    obtain hz | hz := mem_append.1 (h.perm.mem_iff.1 hz)
    · obtain rfl | hz := mem_cons.1 hz
      · exact hyx
      · exact (hle hc).trans _ _ _ hyx ((pairwise_cons.1 hxs).1 z hz)
    · exact hy z hz
  · have hstable := h.stable ⟨hc, hxs, (pairwise_cons.1 hys).2⟩ a
    rw [filter_append] at hstable ⊢
    by_cases ha : equivalent le a y = true
    · -- Everything in the left list comes after `y`, so nothing there is equivalent to it.
      have hnone : (x :: xs).filter (equivalent le a) = [] := by
        refine filter_eq_nil_iff.2 fun z hz haz => hxy hc ?_
        have hxz : le x z = true := by
          obtain heq | hz := mem_cons.1 hz
          · rw [heq]
            exact or_self_iff.1 ((hle hc).total x x)
          · exact (pairwise_cons.1 hxs).1 z hz
        have hza := (and_eq_true_iff.1 haz).2
        exact (hle hc).trans _ _ _ hxz ((hle hc).trans _ _ _ hza (and_eq_true_iff.1 ha).1)
      rw [hnone, nil_append] at hstable ⊢
      simp [filter_cons_of_pos ha, hstable]
    · simp [filter_cons_of_neg ha, hstable]

/-- The last element of the first list may come before the first one of the second list. -/
lemma Merges.of_boundary (hle : consistent → IsTotalPreorder le)
    (h : consistent → ∀ x ∈ xs.getLast?, ∀ y ∈ ys.head?, le x y = true) :
    Merges le consistent xs ys (xs ++ ys) := by
  refine .refl fun ⟨hc, hxs, hys⟩ => pairwise_append.2 ⟨hxs, hys, fun x hx y hy => ?_⟩
  obtain ⟨before, last, rfl⟩ := eq_nil_or_concat xs |>.resolve_left (ne_nil_of_mem hx)
  cases ys with
  | nil => exact absurd hy not_mem_nil
  | cons first rest =>
    have hboundary := h hc last (by rw [concat_eq_append, getLast?_concat]; rfl) first rfl
    rw [concat_eq_append] at hx hxs
    have hlast : le x first = true := by
      obtain hx | hx := mem_append.1 hx
      · exact (hle hc).trans _ _ _ ((pairwise_append.1 hxs).2.2 x hx last (mem_singleton_self _)) hboundary
      · obtain rfl := mem_singleton.1 hx
        exact hboundary
    obtain rfl | hy := mem_cons.1 hy
    · exact hlast
    · exact (hle hc).trans _ _ _ hlast ((pairwise_cons.1 hys).1 y hy)

lemma Merges.rearranges {xs' ys' : List α} (h : Merges le consistent xs' ys' zs) (hxs : Rearranges le consistent xs xs')
    (hys : Rearranges le consistent ys ys') : Rearranges le consistent (xs ++ ys) zs where
  perm := h.perm.trans (hxs.perm.append hys.perm)
  sorted hc := h.sorted ⟨hc, hxs.sorted hc, hys.sorted hc⟩
  stable hc x := by
    simp [h.stable ⟨hc, hxs.sorted hc, hys.sorted hc⟩ x, hxs.stable hc x, hys.stable hc x]

/-! ## Sorting by a key

A list that is stably sorted by one key after another is sorted by the last key first. -/

def byKey (key : α → ℕ) (x y : α) : Bool := decide (key x ≤ key y)

lemma isTotalPreorder_byKey (key : α → ℕ) : IsTotalPreorder (byKey key) where
  total x y := (Nat.le_total (key x) (key y)).imp decide_eq_true decide_eq_true
  trans _ _ _ hxy hyz := decide_eq_true (Nat.le_trans (of_decide_eq_true hxy) (of_decide_eq_true hyz))

/-- Elements that are equivalent are still sorted as they have been before. -/
lemma Rearranges.lex {le' : α → α → Bool} (h : Rearranges le True xs ys) (hle : IsTotalPreorder le)
    (hsorted : Sorted le' xs) : ys.Pairwise fun x y => le x y = true ∧ (le y x = true → le' x y = true) := by
  refine pairwise_iff_forall_sublist.2 fun {x y} hxy => ?_
  have hle_xy := pairwise_iff_forall_sublist.1 (h.sorted trivial) hxy
  refine ⟨hle_xy, fun hle_yx => ?_⟩
  have hx : equivalent le x x = true := and_eq_true_iff.2 (and_self_iff.2 (or_self_iff.1 (hle.total x x)))
  have hy : equivalent le x y = true := and_eq_true_iff.2 ⟨hle_xy, hle_yx⟩
  have hfilter := hxy.filter (equivalent le x)
  rw [filter_cons_of_pos hx, filter_cons_of_pos hy, filter_nil, h.stable trivial x] at hfilter
  exact pairwise_iff_forall_sublist.1 hsorted (hfilter.trans filter_sublist)

def buckets (key : α → ℕ) (xs : List α) : ℕ → List α
  | 0 => []
  | n + 1 => buckets key xs n ++ xs.filter fun x => decide (key x = n)

lemma filter_key_singleton (key : α → ℕ) (r : ℕ) (x : α) :
    ([x].filter fun y => decide (key y = r)) = if key x = r then [x] else [] := by
  simp [filter_cons]

lemma buckets_perm (key : α → ℕ) (xs : List α) (n : ℕ) :
    (buckets key xs n).Perm (xs.filter fun x => decide (key x < n)) := by
  induction n with
  | zero =>
    simpa using .refl _
  | succ n ih =>
    have hsplit := filter_append_perm (fun x => decide (key x < n)) (xs.filter fun x => decide (key x < n + 1))
    rw [filter_filter, filter_filter] at hsplit
    have hlow : (xs.filter fun x => decide (key x < n) && decide (key x < n + 1)) =
        xs.filter fun x => decide (key x < n) := by
      refine filter_congr fun x _ => ?_
      rw [← decide_and]
      exact decide_eq_decide.2 (by omega)
    have hhigh : (xs.filter fun x => (!decide (key x < n)) && decide (key x < n + 1)) =
        xs.filter fun x => decide (key x = n) := by
      refine filter_congr fun x _ => ?_
      rw [← decide_not, ← decide_and]
      exact decide_eq_decide.2 (by omega)
    rw [hlow, hhigh] at hsplit
    exact (ih.append_right _).trans hsplit

lemma key_lt_of_mem_buckets {key : α → ℕ} {n : ℕ} {x : α} (h : x ∈ buckets key xs n) : key x < n :=
  of_decide_eq_true (mem_filter.1 ((buckets_perm key xs n).mem_iff.1 h)).2

lemma sorted_buckets (key : α → ℕ) (xs : List α) (n : ℕ) : Sorted (byKey key) (buckets key xs n) := by
  induction n with
  | zero => exact .nil
  | succ n ih =>
    have hsame (x : α) (hx : x ∈ xs.filter fun x => decide (key x = n)) : key x = n :=
      of_decide_eq_true (mem_filter.1 hx).2
    refine pairwise_append.2 ⟨ih, pairwise_of_forall_mem_list fun x hx y hy => ?_, fun x hx y hy => ?_⟩
    · exact decide_eq_true (Nat.le_of_eq ((hsame x hx).trans (hsame y hy).symm))
    · have hlt := key_lt_of_mem_buckets hx
      exact decide_eq_true (by rw [hsame y hy]; omega)

lemma filter_buckets (key : α → ℕ) (xs : List α) (n : ℕ) (x : α) :
    (buckets key xs n).filter (equivalent (byKey key) x) =
      if key x < n then xs.filter (equivalent (byKey key) x) else [] := by
  have hequivalent (y : α) : equivalent (byKey key) x y = decide (key y = key x) := by
    rw [equivalent, byKey, byKey, ← decide_and]
    exact decide_eq_decide.2 (by omega)
  induction n with
  | zero => rfl
  | succ n ih =>
    rw [buckets, filter_append, ih, filter_filter]
    by_cases heq : key x = n
    · have hbucket : (xs.filter fun y => equivalent (byKey key) x y && decide (key y = n)) =
          xs.filter (equivalent (byKey key) x) := by
        refine filter_congr fun y _ => ?_
        simp [hequivalent, heq]
      rw [if_neg (by omega), if_pos (by omega), hbucket, nil_append]
    · have hbucket : (xs.filter fun y => equivalent (byKey key) x y && decide (key y = n)) = [] := by
        refine filter_eq_nil_iff.2 fun y _ hy => ?_
        rw [hequivalent, ← decide_and, decide_eq_true_iff] at hy
        omega
      rw [hbucket, append_nil]
      by_cases hlt : key x < n
      · rw [if_pos hlt, if_pos (by omega)]
      · rw [if_neg hlt, if_neg (by omega)]

/-- With all keys, the buckets are the stably sorted list. -/
lemma rearranges_buckets {key : α → ℕ} {n : ℕ} (h : ∀ x ∈ xs, key x < n) (consistent : Prop) :
    Rearranges (byKey key) consistent xs (buckets key xs n) where
  perm := by
    have hperm := buckets_perm key xs n
    rwa [filter_eq_self.2 fun x hx => decide_eq_true (h x hx)] at hperm
  sorted _ := sorted_buckets key xs n
  stable _ x := by
    rw [filter_buckets]
    by_cases hx : key x < n
    · rw [if_pos hx]
    · rw [if_neg hx]
      refine (filter_eq_nil_iff.2 fun y hy hxy => hx ?_).symm
      have hle := of_decide_eq_true (and_eq_true_iff.1 hxy).1
      exact Nat.lt_of_le_of_lt hle (h y hy)

/-! ## Parts of an array -/

/-- The elements from `lo` on, before `hi`. -/
def slice (b : ℕ → α) (lo hi : ℕ) : List α := (List.range' lo (hi - lo)).map b

variable {b c : ℕ → α} {lo mid hi : ℕ}

@[simp] lemma length_slice (b : ℕ → α) (lo hi : ℕ) : (slice b lo hi).length = hi - lo := by
  simp [slice]

lemma slice_eq_nil (h : hi ≤ lo) : slice b lo hi = [] := by
  rw [slice, Nat.sub_eq_zero_of_le h]
  rfl

lemma slice_cons (h : lo < hi) : slice b lo hi = b lo :: slice b (lo + 1) hi := by
  rw [slice, slice, show hi - lo = hi - (lo + 1) + 1 by omega, range'_succ, map_cons]

lemma slice_append (hlo : lo ≤ mid) (hhi : mid ≤ hi) : slice b lo hi = slice b lo mid ++ slice b mid hi := by
  have hrange : List.range' lo (hi - lo) = List.range' lo (mid - lo) ++ List.range' mid (hi - mid) := by
    have happend := range'_append_1 (s := lo) (m := mid - lo) (n := hi - mid)
    rw [Nat.add_sub_cancel' hlo] at happend
    rw [happend]
    congr 1
    omega
  simp [slice, hrange]

lemma slice_concat (h : lo ≤ hi) : slice b lo (hi + 1) = slice b lo hi ++ [b hi] := by
  rw [slice_append h (Nat.le_succ hi), slice_cons (Nat.lt_succ_self hi), slice_eq_nil (Nat.le_refl _)]

lemma slice_congr (h : ∀ i, lo ≤ i → i < hi → b i = c i) : slice b lo hi = slice c lo hi := by
  refine map_congr_left fun i hi' => ?_
  obtain ⟨hlow, hhigh⟩ := mem_range'_1.1 hi'
  exact h i hlow (by omega)

lemma getElem?_slice (b : ℕ → α) (hi i : ℕ) (h : i < hi) : (slice b 0 hi)[i]? = some (b i) := by
  simp [slice, getElem?_range' (by omega)]

lemma mem_slice {i : ℕ} (hlo : lo ≤ i) (hhi : i < hi) : b i ∈ slice b lo hi :=
  mem_map_of_mem (mem_range'_1.2 ⟨hlo, by omega⟩)

lemma sorted_slice_iff : Sorted le (slice b lo hi) ↔ ∀ x y, lo ≤ x → x < y → y < hi → le (b x) (b y) = true := by
  constructor
  · intro h x y hx hxy hy
    rw [slice_append (show lo ≤ x + 1 by omega) (show x + 1 ≤ hi by omega)] at h
    exact (pairwise_append.1 h).2.2 _ (mem_slice hx (Nat.lt_succ_self x)) _ (mem_slice (by omega) hy)
  · intro h
    have hlt : (List.range' lo (hi - lo)).Pairwise (· < ·) := pairwise_lt_range'
    refine pairwise_map.2 (hlt.imp_of_mem fun {x y} hx hy hxy => ?_)
    have hx := mem_range'_1.1 hx
    have hy := mem_range'_1.1 hy
    exact h x y hx.1 hxy (by omega)

end StableSort
