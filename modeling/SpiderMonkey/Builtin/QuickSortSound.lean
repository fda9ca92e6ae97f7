import Mathlib.Data.List.Nodup
import Mathlib.Logic.Equiv.Basic
import SpiderMonkey.Builtin.QuickSort

/-!
# Quick sort sorts

With the comparator of a total preorder no scan leaves its range, the loop ends, and the array is sorted.
-/

namespace SpiderMonkey.Sorting

open StableSort Store List Equiv

variable {α σ : Type*} {comparefn : Comparator α (Store α σ)} {le : α → α → Bool} {s s' : Store α σ}

/-- The comparator always returns, leaves the buffers alone, and compares as `le`. -/
structure Consistent (comparefn : Comparator α (Store α σ)) (le : α → α → Bool) : Prop where
  preorder : IsTotalPreorder le
  returns : ∀ x y s, ∃ order s', comparefn x y s = some (order, s') ∧ s'.buffers = s.buffers ∧
    (order ≤ 0 ↔ le x y = true) ∧ (0 ≤ order ↔ le y x = true)

lemma Consistent.obeys (hc : Consistent comparefn le) : Obeys comparefn le True where
  keeps {x y s order s'} h := by
    obtain ⟨order₁, s₁, hcompare, hkeeps, -⟩ := hc.returns x y s
    cases h.symm.trans hcompare
    exact hkeeps
  preorder _ := hc.preorder
  answers _ {x y s order s'} h := by
    obtain ⟨order₁, s₁, hcompare, -, hle, -⟩ := hc.returns x y s
    cases h.symm.trans hcompare
    exact hle

lemma Consistent.ne_none (hc : Consistent comparefn le) (x y : α) (s : Store α σ) : comparefn x y s ≠ none := by
  obtain ⟨order, s', hcompare, -⟩ := hc.returns x y s
  rw [hcompare]
  exact Option.some_ne_none _

lemma Consistent.refl (hc : Consistent comparefn le) (x : α) : le x x = true := or_self_iff.1 (hc.preorder.total x x)

lemma get_of_buffers (h : s'.buffers = s.buffers) (b : Buffer) (k : ℕ) : s'.get b k = s.get b k :=
  congrFun (congrFun h b) k

/-! ## Rearranging a range -/

/-- The elements from `lo` on, before `hi`, have been rearranged. -/
structure Shuffles (lo hi : ℕ) (s s' : Store α σ) : Prop where
  perm : (slice (s'.buffers .given) lo hi).Perm (slice (s.buffers .given) lo hi)
  keeps : KeepsOutside .given lo hi s s'

variable {lo hi lo' hi' : ℕ}

lemma Shuffles.of_buffers (h : s'.buffers = s.buffers) : Shuffles lo hi s s' := by
  refine ⟨?_, .of_buffers h⟩
  rw [h]

lemma Shuffles.trans {s₁ s₂ s₃ : Store α σ} (h : Shuffles lo hi s₁ s₂) (h' : Shuffles lo hi s₂ s₃) :
    Shuffles lo hi s₁ s₃ := ⟨h'.perm.trans h.perm, h.keeps.trans h'.keeps⟩

lemma Shuffles.mono (h : Shuffles lo hi s s') (hlo : lo' ≤ lo) (hle : lo ≤ hi) (hhi : hi ≤ hi') :
    Shuffles lo' hi' s s' := by
  refine ⟨?_, h.keeps.mono hlo hhi⟩
  rw [slice_append hlo (hle.trans hhi), slice_append hle hhi, slice_append hlo (hle.trans hhi), slice_append hle hhi,
    h.keeps.slice_eq fun _ => .inl le_rfl, h.keeps.slice_eq fun _ => .inr le_rfl]
  exact (h.perm.append_right _).append_left _

lemma Shuffles.exists_eq (h : Shuffles lo hi s s') {x : ℕ} (hlow : lo ≤ x) (hhigh : x < hi) :
    ∃ x', lo ≤ x' ∧ x' < hi ∧ s'.buffers .given x = s.buffers .given x' := by
  have hmem : s'.buffers .given x ∈ slice (s'.buffers .given) lo hi := mem_slice hlow hhigh
  obtain ⟨x', hx', heq⟩ := mem_map.1 (h.perm.mem_iff.1 hmem)
  obtain ⟨hlow', hhigh'⟩ := mem_range'_1.1 hx'
  exact ⟨x', hlow', by omega, heq.symm⟩

lemma swapArrayElements_get (s : Store α σ) (i j k : ℕ) :
    (swapArrayElements s i j).get .given k = s.get .given (swap i j k) := by
  rw [swapArrayElements]
  by_cases hj : k = j
  · simp [hj]
  · rw [set_get_of_ne _ _ fun _ => hj]
    by_cases hi : k = i
    · simp [hi]
    · rw [set_get_of_ne _ _ fun _ => hi, swap_apply_of_ne_of_ne hi hj]

lemma shuffles_swap {i j : ℕ} (hi₁ : lo ≤ i) (hi₂ : i < hi) (hj₁ : lo ≤ j) (hj₂ : j < hi) (s : Store α σ) :
    Shuffles lo hi s (swapArrayElements s i j) := by
  refine ⟨?_, (KeepsOutside.set _ _ hi₁ hi₂ s).trans (.set _ _ hj₁ hj₂ _)⟩
  have hslice : slice ((swapArrayElements s i j).buffers .given) lo hi =
      ((List.range' lo (hi - lo)).map (swap i j)).map (s.buffers .given) := by
    rw [slice, map_map]
    exact map_congr_left fun k _ => swapArrayElements_get s i j k
  have hrange : ((List.range' lo (hi - lo)).map (swap i j)).Perm (List.range' lo (hi - lo)) := by
    refine (perm_ext_iff_of_nodup ((nodup_range').map (swap i j).injective) nodup_range').2 ?_
    intro k
    rw [mem_map, mem_range'_1]
    constructor
    · rintro ⟨m, hm, rfl⟩
      have hm := mem_range'_1.1 hm
      rw [swap_apply_def]
      split_ifs <;> omega
    · intro hk
      refine ⟨swap i j k, mem_range'_1.2 ?_, swap_apply_self i j k⟩
      rw [swap_apply_def]
      split_ifs <;> omega
  rw [hslice]
  exact hrange.map _

/-! ## The partition -/

lemma swapIfGreater_spec (hc : Consistent comparefn le) (i j : ℕ) (s : Store α σ) :
    ∃ s', swapIfGreater comparefn i j s = some s' ∧ le (s'.get .given i) (s'.get .given j) = true ∧
      ((∀ k, s'.get .given k = s.get .given k) ∨
        (∀ k, s'.get .given k = s.get .given (swap i j k)) ∧ le (s.get .given j) (s.get .given i) = true) ∧
      ∀ lo hi, lo ≤ i → i < hi → lo ≤ j → j < hi → Shuffles lo hi s s' := by
  obtain ⟨order, s₁, hcompare, hkeeps, hle, hge⟩ := hc.returns (s.get .given i) (s.get .given j) s
  rw [swapIfGreater, hcompare]
  dsimp only
  by_cases horder : 0 < order
  · have hswap (k : ℕ) : (swapArrayElements s₁ i j).get .given k = s.get .given (swap i j k) := by
      rw [swapArrayElements_get, get_of_buffers hkeeps]
    rw [if_pos horder]
    refine ⟨_, rfl, ?_, .inr ⟨hswap, hge.1 horder.le⟩, fun lo hi hi₁ hi₂ hj₁ hj₂ =>
      (Shuffles.of_buffers hkeeps).trans (shuffles_swap hi₁ hi₂ hj₁ hj₂ s₁)⟩
    simpa [hswap] using hge.1 horder.le
  · rw [if_neg horder]
    refine ⟨_, rfl, ?_, .inl (get_of_buffers hkeeps .given), fun lo hi _ _ _ _ => .of_buffers hkeeps⟩
    rw [get_of_buffers hkeeps, get_of_buffers hkeeps]
    exact hle.1 (not_lt.1 horder)

/-- An element that is not less than the pivot ends the scan. -/
lemma scanUp_spec (hc : Consistent comparefn le) {to_ pivotIndex i k : ℕ} {s : Store α σ} (hik : i < k) (hk : k ≤ to_)
    (hsentinel : le (s.get .given pivotIndex) (s.get .given k) = true) :
    ∃ i' s', scanUp comparefn to_ pivotIndex i s = some (i', s') ∧ s'.buffers = s.buffers ∧ i < i' ∧ i' ≤ k ∧
      le (s.get .given pivotIndex) (s.get .given i') = true ∧
      ∀ m, i < m → m < i' → le (s.get .given m) (s.get .given pivotIndex) = true := by
  induction hn : k - i generalizing i s with
  | zero => omega
  | succ n ih =>
    obtain ⟨order, s₁, hcompare, hkeeps, hle, hge⟩ := hc.returns (s.get .given (i + 1)) (s.get .given pivotIndex) s
    have hsame (m : ℕ) : s₁.get .given m = s.get .given m := get_of_buffers hkeeps .given m
    rw [scanUp, if_pos (by omega), hcompare]
    dsimp only
    by_cases horder : order < 0
    · have hmore : i + 1 ≠ k := by
        rintro rfl
        exact absurd (hge.2 hsentinel) (by omega)
      rw [if_pos horder]
      rw [← hsame, ← hsame] at hsentinel
      obtain ⟨i', s', hscan, hkeeps', hlow, hhigh, hstop, hpassed⟩ := ih (i := i + 1) (by omega) hsentinel (by omega)
      refine ⟨i', s', hscan, hkeeps'.trans hkeeps, by omega, hhigh, ?_, fun m hm hm' => ?_⟩
      · rw [hsame, hsame] at hstop
        exact hstop
      · by_cases heq : m = i + 1
        · rw [heq]
          exact hle.1 horder.le
        · have hpassed' := hpassed m (by omega) hm'
          rwa [hsame, hsame] at hpassed'
    · rw [if_neg horder]
      exact ⟨i + 1, s₁, rfl, hkeeps, by omega, by omega, hge.1 (not_lt.1 horder), fun m hm hm' => by omega⟩

/-- An element that is not greater than the pivot ends the scan. -/
lemma scanDown_spec (hc : Consistent comparefn le) {from_ pivotIndex j k : ℕ} {s : Store α σ} (hk : from_ ≤ k)
    (hkj : k < j) (hsentinel : le (s.get .given k) (s.get .given pivotIndex) = true) :
    ∃ j' s', scanDown comparefn from_ pivotIndex j s = some (j', s') ∧ s'.buffers = s.buffers ∧ k ≤ j' ∧ j' < j ∧
      le (s.get .given j') (s.get .given pivotIndex) = true ∧
      ∀ m, j' < m → m < j → le (s.get .given pivotIndex) (s.get .given m) = true := by
  induction j generalizing s with
  | zero => omega
  | succ j ih =>
    obtain ⟨order, s₁, hcompare, hkeeps, hle, hge⟩ := hc.returns (s.get .given j) (s.get .given pivotIndex) s
    have hsame (m : ℕ) : s₁.get .given m = s.get .given m := get_of_buffers hkeeps .given m
    rw [scanDown, if_pos (by omega), hcompare]
    dsimp only
    by_cases horder : 0 < order
    · have hmore : k ≠ j := by
        rintro rfl
        exact absurd (hle.2 hsentinel) (by omega)
      rw [if_pos horder]
      rw [← hsame, ← hsame] at hsentinel
      obtain ⟨j', s', hscan, hkeeps', hlow, hhigh, hstop, hpassed⟩ := ih (by omega) hsentinel
      refine ⟨j', s', hscan, hkeeps'.trans hkeeps, hlow, by omega, ?_, fun m hm hm' => ?_⟩
      · rw [hsame, hsame] at hstop
        exact hstop
      · by_cases heq : m = j
        · rw [heq]
          exact hge.1 horder.le
        · have hpassed' := hpassed m hm (by omega)
          rwa [hsame, hsame] at hpassed'
    · rw [if_neg horder]
      exact ⟨j, s₁, rfl, hkeeps, by omega, Nat.lt_succ_self j, hle.1 (not_lt.1 horder), fun m hm hm' => by omega⟩

/-- The elements up to `i` are not greater than the pivot, and those from `j` on are not less. -/
structure Scanned (le : α → α → Bool) (from_ to_ i j : ℕ) (s : Store α σ) : Prop where
  lower : from_ + 1 ≤ i
  upper : j ≤ to_
  crossed : i ≤ j
  lt_to : i < to_
  from_lt : from_ + 1 < j
  below : ∀ m, from_ + 1 ≤ m → m ≤ i → le (s.get .given m) (s.get .given (from_ + 1)) = true
  above : ∀ m, j ≤ m → m ≤ to_ → le (s.get .given (from_ + 1)) (s.get .given m) = true

lemma hoareLoop_spec (hc : Consistent comparefn le) {from_ to_ i j : ℕ} {s : Store α σ}
    (h : Scanned le from_ to_ i j s) :
    ∃ j' s', hoareLoop comparefn from_ to_ (from_ + 1) i j s = some (j', s') ∧ from_ + 1 ≤ j' ∧ j' < to_ ∧
      Shuffles (from_ + 2) (to_ + 1) s s' ∧
      (∀ m, from_ + 1 ≤ m → m ≤ j' → le (s'.get .given m) (s'.get .given (from_ + 1)) = true) ∧
      ∀ m, j' < m → m ≤ to_ → le (s'.get .given (from_ + 1)) (s'.get .given m) = true := by
  induction j using Nat.strong_induction_on generalizing i s with
  | h j ih =>
    have hlower := h.lower
    have hupper := h.upper
    have hij := h.crossed
    have hlt := h.lt_to
    have hfrom := h.from_lt
    obtain ⟨i', s₁, hup, hkeeps₁, hi, hik, hstop, hpassed⟩ := scanUp_spec hc (show i < max j (i + 1) by omega)
      (show max j (i + 1) ≤ to_ by omega) (h.above _ (le_max_left _ _) (by omega))
    have hsame₁ (m : ℕ) : s₁.get .given m = s.get .given m := get_of_buffers hkeeps₁ .given m
    obtain ⟨j', s₂, hdown, hkeeps₂, hkj, hj, hstop', hpassed'⟩ := scanDown_spec hc (s := s₁)
      (show from_ ≤ min i (j - 1) by omega) (show min i (j - 1) < j by omega)
      (show le (s₁.get .given (min i (j - 1))) (s₁.get .given (from_ + 1)) = true by
        rw [hsame₁, hsame₁]
        exact h.below _ (by omega) (min_le_left _ _))
    have hsame₂ (m : ℕ) : s₂.get .given m = s.get .given m := get_of_buffers (hkeeps₂.trans hkeeps₁) .given m
    simp only [hsame₁] at hstop' hpassed'
    have hbelow (m : ℕ) (hm : from_ + 1 ≤ m) (hm' : m < i') :
        le (s.get .given m) (s.get .given (from_ + 1)) = true := by
      by_cases hmi : m ≤ i
      · exact h.below m hm hmi
      · exact hpassed m (by omega) hm'
    have habove (m : ℕ) (hm : j' < m) (hm' : m ≤ to_) : le (s.get .given (from_ + 1)) (s.get .given m) = true := by
      by_cases hmj : j ≤ m
      · exact h.above m hmj hm'
      · exact hpassed' m hm (by omega)
    rw [hoareLoop, hup]
    dsimp only
    rw [hdown]
    dsimp only
    split_ifs
    · refine ⟨j', s₂, rfl, by omega, by omega, .of_buffers (hkeeps₂.trans hkeeps₁), fun m hm hm' => ?_,
        fun m hm hm' => ?_⟩
      · rw [hsame₂, hsame₂]
        exact hbelow m hm (by omega)
      · rw [hsame₂, hsame₂]
        exact habove m hm hm'
    · have hswap (m : ℕ) : (swapArrayElements s₂ i' j').get .given m = s.get .given (swap i' j' m) := by
        rw [swapArrayElements_get, hsame₂]
      have hpivot : (swapArrayElements s₂ i' j').get .given (from_ + 1) = s.get .given (from_ + 1) := by
        rw [hswap, swap_apply_of_ne_of_ne (by omega) (by omega)]
      have hscanned : Scanned le from_ to_ i' j' (swapArrayElements s₂ i' j') := by
        refine ⟨by omega, by omega, by omega, by omega, by omega, fun m hm hm' => ?_, fun m hm hm' => ?_⟩
        · rw [hpivot, hswap]
          by_cases heq : m = i'
          · simpa [heq] using hstop'
          · rw [swap_apply_of_ne_of_ne heq (by omega)]
            exact hbelow m hm (by omega)
        · rw [hpivot, hswap]
          by_cases heq : m = j'
          · simpa [heq] using hstop
          · rw [swap_apply_of_ne_of_ne (by omega) heq]
            exact habove m (by omega) hm'
      obtain ⟨j'', s', hloop, hlow, hhigh, hshuffles, hleft, hright⟩ := ih j' hj hscanned
      refine ⟨j'', s', hloop, hlow, hhigh, ?_, hleft, hright⟩
      exact ((Shuffles.of_buffers (hkeeps₂.trans hkeeps₁)).trans
        (shuffles_swap (by omega) (by omega) (by omega) (by omega) s₂)).trans hshuffles

/-- The median of three is the pivot, with an element that is not greater before it and one that is not less at the
end. -/
lemma medianOfThree_spec (hc : Consistent comparefn le) {from_ to_ : ℕ} (hlt : from_ + 3 ≤ to_) (s : Store α σ) :
    ∃ s₁ s₂ s₃, swapIfGreater comparefn from_ to_ s = some s₁ ∧ swapIfGreater comparefn (from_ + 1) to_ s₁ = some s₂ ∧
      swapIfGreater comparefn from_ (from_ + 1) s₂ = some s₃ ∧ Shuffles from_ (to_ + 1) s s₃ ∧
      le (s₃.get .given from_) (s₃.get .given (from_ + 1)) = true ∧
      le (s₃.get .given (from_ + 1)) (s₃.get .given to_) = true := by
  obtain ⟨s₁, h₁, hle₁, -, hshuffles₁⟩ := swapIfGreater_spec hc from_ to_ s
  obtain ⟨s₂, h₂, hle₂, hcases₂, hshuffles₂⟩ := swapIfGreater_spec hc (from_ + 1) to_ s₁
  obtain ⟨s₃, h₃, hle₃, hcases₃, hshuffles₃⟩ := swapIfGreater_spec hc from_ (from_ + 1) s₂
  have hfirst : le (s₂.get .given from_) (s₂.get .given to_) = true := by
    obtain hsame | ⟨hswap, hle⟩ := hcases₂
    · rw [hsame, hsame]
      exact hle₁
    · rw [hswap, hswap, swap_apply_right, swap_apply_of_ne_of_ne (by omega) (by omega)]
      exact hc.preorder.trans _ _ _ hle₁ hle
  refine ⟨s₁, s₂, s₃, h₁, h₂, h₃, ?_, hle₃, ?_⟩
  · have hall₁ := hshuffles₁ from_ (to_ + 1) (by omega) (by omega) (by omega) (by omega)
    have hall₂ := hshuffles₂ from_ (to_ + 1) (by omega) (by omega) (by omega) (by omega)
    exact (hall₁.trans hall₂).trans (hshuffles₃ from_ (to_ + 1) (by omega) (by omega) (by omega) (by omega))
  · obtain hsame | ⟨hswap, -⟩ := hcases₃
    · rw [hsame, hsame]
      exact hle₂
    · rw [hswap, hswap, swap_apply_right, swap_apply_of_ne_of_ne (by omega) (by omega)]
      exact hfirst

/-- The pivot is inside of the range, after elements that are not greater and before elements that are not less. -/
lemma partition_spec (hc : Consistent comparefn le) {from_ to_ : ℕ} (hlt : from_ + 3 ≤ to_) (s : Store α σ) :
    ∃ j s', partition comparefn from_ to_ s = some (j, s') ∧ from_ < j ∧ j < to_ ∧ Shuffles from_ (to_ + 1) s s' ∧
      (∀ m, from_ ≤ m → m ≤ j → le (s'.get .given m) (s'.get .given j) = true) ∧
      ∀ m, j ≤ m → m ≤ to_ → le (s'.get .given j) (s'.get .given m) = true := by
  obtain ⟨s₁, s₂, s₃, h₁, h₂, h₃, hshuffles, hfirst, hlast⟩ :=
    medianOfThree_spec hc hlt (swapArrayElements s (from_ + (to_ - from_) / 2) (from_ + 1))
  have hscanned : Scanned le from_ to_ (from_ + 1) to_ s₃ := by
    refine ⟨le_rfl, le_rfl, by omega, by omega, by omega, fun m hm hm' => ?_, fun m hm hm' => ?_⟩
    · rw [le_antisymm hm' hm]
      exact hc.refl _
    · rw [le_antisymm hm' hm]
      exact hlast
  obtain ⟨j, s₄, hloop, hlow, hhigh, hshuffles₄, hleft, hright⟩ := hoareLoop_spec hc hscanned
  have hpartition : partition comparefn from_ to_ s = some (j, swapArrayElements s₄ (from_ + 1) j) := by
    rw [partition]
    simp [h₁, h₂, h₃, hloop]
  have hbefore : s₄.get .given from_ = s₃.get .given from_ := hshuffles₄.keeps _ _ fun _ => .inl (by omega)
  have hpivot : s₄.get .given (from_ + 1) = s₃.get .given (from_ + 1) := hshuffles₄.keeps _ _ fun _ => .inl (by omega)
  refine ⟨j, _, hpartition, by omega, hhigh, ?_, fun m hm hm' => ?_, fun m hm hm' => ?_⟩
  · have hmedian : Shuffles from_ (to_ + 1) s (swapArrayElements s (from_ + (to_ - from_) / 2) (from_ + 1)) :=
      shuffles_swap (by omega) (by omega) (by omega) (by omega) s
    have hpivotPlace : Shuffles from_ (to_ + 1) s₄ (swapArrayElements s₄ (from_ + 1) j) :=
      shuffles_swap (by omega) (by omega) (by omega) (by omega) s₄
    exact ((hmedian.trans hshuffles).trans (hshuffles₄.mono (by omega) (by omega) le_rfl)).trans hpivotPlace
  · rw [swapArrayElements_get, swapArrayElements_get, swap_apply_right]
    by_cases hfrom : m = from_
    · rw [hfrom, swap_apply_of_ne_of_ne (by omega) (by omega), hbefore, hpivot]
      exact hfirst
    · refine hleft _ ?_ ?_ <;> rw [swap_apply_def] <;> split_ifs <;> omega
  · rw [swapArrayElements_get, swapArrayElements_get, swap_apply_right]
    by_cases heq : m = j
    · rw [heq, swap_apply_right]
      exact hc.refl _
    · rw [swap_apply_of_ne_of_ne (by omega) heq]
      exact hright m (by omega) hm'

/-! ## The ranges on the stack -/

/-- Once the ranges are sorted, everything is. -/
structure Pending (le : α → α → Bool) (len : ℕ) (ranges : List (ℕ × ℕ)) (s : Store α σ) : Prop where
  bounds : ∀ r ∈ ranges, r.1 ≤ r.2 ∧ r.2 < len
  disjoint : ranges.Pairwise fun r r' => r.2 < r'.1 ∨ r'.2 < r.1
  ordered : ∀ x y, x < y → y < len → (∀ r ∈ ranges, ¬ (r.1 ≤ x ∧ y ≤ r.2)) → le (s.get .given x) (s.get .given y) = true

/-- How many rounds of the loop are left at most. -/
def rounds (ranges : List (ℕ × ℕ)) : ℕ := (ranges.map fun r => 2 * (r.2 + 1 - r.1) + 1).sum

variable {len start end_ : ℕ} {ranges : List (ℕ × ℕ)}

lemma rounds_cons (start end_ : ℕ) (ranges : List (ℕ × ℕ)) :
    rounds ((start, end_) :: ranges) = 2 * (end_ + 1 - start) + 1 + rounds ranges := by
  simp [rounds]

lemma Pending.shuffle (h : Pending le len ((start, end_) :: ranges) s) (hshuffles : Shuffles start (end_ + 1) s s') :
    Pending le len ((start, end_) :: ranges) s' := by
  have hdisjoint := (pairwise_cons.1 h.disjoint).1
  refine ⟨h.bounds, h.disjoint, fun x y hxy hy hout => ?_⟩
  have hthis : ¬ (start ≤ x ∧ y ≤ end_) := hout _ mem_cons_self
  have hbounds := h.bounds _ mem_cons_self
  dsimp only at hbounds
  -- An element of the range is one that has been there, and it was in order with those outside.
  by_cases hx : start ≤ x ∧ x ≤ end_
  · obtain ⟨x', hlow, hhigh, heq⟩ := hshuffles.exists_eq hx.1 (Nat.lt_succ_of_le hx.2)
    have hsame : s'.get .given y = s.get .given y := hshuffles.keeps _ _ fun _ => .inr (by omega)
    rw [hsame]
    refine (congrArg (fun a => le a _) heq).trans (h.ordered x' y (by omega) hy fun r hr hin => ?_)
    obtain rfl | hr := mem_cons.1 hr
    · dsimp only at hin
      omega
    · have hdis := hdisjoint r hr
      dsimp only at hdis
      omega
  · have hsame : s'.get .given x = s.get .given x := hshuffles.keeps _ _ fun _ => by omega
    rw [hsame]
    by_cases hy' : start ≤ y ∧ y ≤ end_
    · obtain ⟨y', hlow, hhigh, heq⟩ := hshuffles.exists_eq hy'.1 (Nat.lt_succ_of_le hy'.2)
      refine (congrArg (fun a => le _ a) heq).trans (h.ordered x y' (by omega) (by omega) fun r hr hin => ?_)
      obtain rfl | hr := mem_cons.1 hr
      · dsimp only at hin
        omega
      · have hdis := hdisjoint r hr
        dsimp only at hdis
        omega
    · have hsame' : s'.get .given y = s.get .given y := hshuffles.keeps _ _ fun _ => by omega
      rw [hsame']
      exact h.ordered x y hxy hy hout

/-- A range that has been partitioned is replaced by what is before and after the pivot. -/
lemma Pending.split (h : Pending le len ((start, end_) :: ranges) s) {j : ℕ} (hlow : start < j) (hhigh : j < end_)
    (hpre : IsTotalPreorder le)
    (hleft : ∀ m, start ≤ m → m ≤ j → le (s.get .given m) (s.get .given j) = true)
    (hright : ∀ m, j ≤ m → m ≤ end_ → le (s.get .given j) (s.get .given m) = true) :
    Pending le len ((start, j - 1) :: (j + 1, end_) :: ranges) s := by
  obtain ⟨hdisjoint, hrest⟩ := pairwise_cons.1 h.disjoint
  have hbounds := h.bounds _ mem_cons_self
  dsimp only at hbounds
  refine ⟨fun r hr => ?_, ?_, fun x y hxy hy hout => ?_⟩
  · obtain rfl | hr := mem_cons.1 hr
    · dsimp only
      omega
    obtain rfl | hr := mem_cons.1 hr
    · dsimp only
      omega
    · exact h.bounds r (mem_cons_of_mem _ hr)
  · refine pairwise_cons.2 ⟨fun r hr => ?_, pairwise_cons.2 ⟨fun r hr => ?_, hrest⟩⟩
    · obtain rfl | hr := mem_cons.1 hr
      · dsimp only
        omega
      · have hdis := hdisjoint r hr
        dsimp only at hdis ⊢
        omega
    · have hdis := hdisjoint r hr
      dsimp only at hdis ⊢
      omega
  · have hout₁ : ¬ (start ≤ x ∧ y ≤ j - 1) := hout _ mem_cons_self
    have hout₂ : ¬ (j + 1 ≤ x ∧ y ≤ end_) := hout _ (mem_cons_of_mem _ mem_cons_self)
    by_cases hin : start ≤ x ∧ y ≤ end_
    · exact hpre.trans _ _ _ (hleft x hin.1 (by omega)) (hright y (by omega) hin.2)
    · refine h.ordered x y hxy hy fun r hr => ?_
      obtain rfl | hr := mem_cons.1 hr
      · exact hin
      · exact hout r (mem_cons_of_mem _ (mem_cons_of_mem _ hr))

lemma Pending.swap {r r' : ℕ × ℕ} (h : Pending le len (r :: r' :: ranges) s) : Pending le len (r' :: r :: ranges) s := by
  have hperm : (r :: r' :: ranges).Perm (r' :: r :: ranges) := .swap r' r ranges
  refine ⟨fun q hq => h.bounds q (hperm.mem_iff.2 hq), ?_, fun x y hxy hy hout => h.ordered x y hxy hy fun q hq =>
    hout q (hperm.mem_iff.1 hq)⟩
  exact (hperm.pairwise_iff fun hdis => hdis.symm).1 h.disjoint

lemma Pending.drop (h : Pending le len ((start, end_) :: ranges) s)
    (hsorted : Sorted le (slice (s.buffers .given) start (end_ + 1))) : Pending le len ranges s := by
  refine ⟨fun r hr => h.bounds r (mem_cons_of_mem _ hr), (pairwise_cons.1 h.disjoint).2, fun x y hxy hy hout => ?_⟩
  by_cases hin : start ≤ x ∧ y ≤ end_
  · exact sorted_slice_iff.1 hsorted x y hin.1 hxy (by omega)
  · refine h.ordered x y hxy hy fun r hr => ?_
    obtain rfl | hr := mem_cons.1 hr
    · exact hin
    · exact hout r hr

/-! ## The loop -/

lemma quickSortLoop_spec (hc : Consistent comparefn le) {fuel : ℕ} (hfuel : rounds ((start, end_) :: ranges) ≤ fuel)
    (h : Pending le len ((start, end_) :: ranges) s) :
    ∃ s', quickSortLoop comparefn fuel ranges start end_ s = some s' ∧ Pending le len [] s' ∧ Shuffles 0 len s s' := by
  induction fuel generalizing ranges start end_ s with
  | zero =>
    rw [rounds_cons] at hfuel
    omega
  | succ fuel ih =>
    have hbounds := h.bounds _ mem_cons_self
    dsimp only at hbounds
    rw [rounds_cons] at hfuel
    rw [quickSortLoop]
    split_ifs
    · obtain ⟨s₁, hinsertion⟩ := insertionSort_isSome hc.ne_none .given start end_ s
      obtain ⟨hsorted, hkeeps⟩ := insertionSort_spec hc.obeys (Nat.lt_succ_of_le hbounds.1) hinsertion
      have hshuffles : Shuffles start (end_ + 1) s s₁ := ⟨hsorted.perm, hkeeps⟩
      have hall : Shuffles 0 len s s₁ := hshuffles.mono (Nat.zero_le _) (by omega) (by omega)
      have hdone := (h.shuffle hshuffles).drop (hsorted.sorted trivial)
      rw [hinsertion]
      cases ranges with
      | nil => exact ⟨s₁, rfl, hdone, hall⟩
      | cons range ranges =>
        obtain ⟨start', end'⟩ := range
        obtain ⟨s', hloop, hpending, hrest⟩ := ih (by omega) hdone
        exact ⟨s', hloop, hpending, hall.trans hrest⟩
    · obtain ⟨j, s₁, hpartition, hlow, hhigh, hshuffles, hleft, hright⟩ :=
        partition_spec hc (show start + 3 ≤ end_ by omega) s
      have hall : Shuffles 0 len s s₁ := hshuffles.mono (Nat.zero_le _) (by omega) (by omega)
      have hsplit := (h.shuffle hshuffles).split hlow hhigh hc.preorder hleft hright
      rw [hpartition]
      change ∃ s', (if j - 1 - start < end_ - (j + 1) then _ else _) = some s' ∧ _
      split_ifs
      · obtain ⟨s', hloop, hpending, hrest⟩ := ih (by rw [rounds_cons, rounds_cons]; omega) hsplit.swap
        exact ⟨s', hloop, hpending, hall.trans hrest⟩
      · obtain ⟨s', hloop, hpending, hrest⟩ := ih (by rw [rounds_cons, rounds_cons]; omega) hsplit
        exact ⟨s', hloop, hpending, hall.trans hrest⟩

/-- As much fuel as twice the number of elements is enough. -/
lemma quickSort_spec (hc : Consistent comparefn le) {fuel len : ℕ} (hfuel : 2 * len + 3 ≤ fuel) (s : Store α σ) :
    ∃ s', quickSort comparefn fuel len s = some s' ∧ Sorted le (slice (s'.buffers .given) 0 len) ∧
      Shuffles 0 len s s' := by
  by_cases hempty : len = 0
  · obtain ⟨fuel, rfl⟩ := Nat.exists_eq_add_one_of_ne_zero (show fuel ≠ 0 by omega)
    rw [quickSort, hempty, quickSortLoop, if_pos (by omega), insertionSort_of_le (by omega)]
    refine ⟨s, rfl, ?_, .of_buffers rfl⟩
    rw [slice_eq_nil le_rfl]
    exact .nil
  · have hpending : Pending le len [(0, len - 1)] s := by
      refine ⟨fun r hr => ?_, pairwise_singleton _ _, fun x y hxy hy hout => ?_⟩
      · obtain rfl := mem_singleton.1 hr
        dsimp only
        omega
      · exact absurd ⟨Nat.zero_le _, by dsimp only; omega⟩ (hout _ (mem_singleton_self _))
    have hrounds : rounds [(0, len - 1)] ≤ fuel := by
      rw [rounds_cons, rounds, map_nil, sum_nil]
      omega
    obtain ⟨s', hloop, hdone, hshuffles⟩ := quickSortLoop_spec hc hrounds hpending
    refine ⟨s', hloop, sorted_slice_iff.2 fun x y _ hxy hy => hdone.ordered x y hxy hy fun r hr => ?_, hshuffles⟩
    cases hr

end SpiderMonkey.Sorting
