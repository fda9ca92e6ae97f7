import SpiderMonkey.Builtin.MergeSort

/-!
# Merge sort sorts stably

Whatever a comparator answers, as long as it leaves the buffers alone, each step rearranges a slice.  If it answers as a
total preorder, then the slice is stably sorted.
-/

namespace SpiderMonkey.Sorting

open StableSort List Function Option

variable {α σ : Type*} {comparefn : Comparator α (Store α σ)} {le : α → α → Bool} {consistent : Prop}
variable {s s' : Store α σ} {list out : Buffer}

/-- The comparator leaves the buffers alone, and if it is consistent, it answers as `le`. -/
structure Obeys (comparefn : Comparator α (Store α σ)) (le : α → α → Bool) (consistent : Prop) : Prop where
  keeps : ∀ {x y s order s'}, comparefn x y s = some (order, s') → s'.buffers = s.buffers
  preorder : consistent → IsTotalPreorder le
  answers : consistent → ∀ {x y s order s'}, comparefn x y s = some (order, s') → (order ≤ 0 ↔ le x y = true)

/-! ## Stores -/

namespace Store

@[simp] lemma set_get_self (s : Store α σ) (list : Buffer) (i : ℕ) (value : α) :
    (s.set list i value).get list i = value := by
  rw [get, set]
  dsimp only
  simp

lemma set_get_of_ne (s : Store α σ) {list b : Buffer} {i j : ℕ} (value : α) (h : b = list → j ≠ i) :
    (s.set list i value).get b j = s.get b j := by
  rw [get, set]
  dsimp only
  by_cases hb : b = list
  · subst hb
    rw [update_self, update_of_ne (h rfl)]
    rfl
  · rw [update_of_ne hb]
    rfl

/-- Nothing is written but the elements of a list from `lo` on, before `hi`. -/
def KeepsOutside (list : Buffer) (lo hi : ℕ) (s s' : Store α σ) : Prop :=
  ∀ b j, (b = list → j < lo ∨ hi ≤ j) → s'.get b j = s.get b j

variable {lo hi lo' hi' : ℕ} {s₁ s₂ s₃ : Store α σ}

lemma KeepsOutside.refl (list : Buffer) (lo hi : ℕ) (s : Store α σ) : KeepsOutside list lo hi s s := fun _ _ _ => rfl

lemma KeepsOutside.of_buffers (h : s'.buffers = s.buffers) : KeepsOutside list lo hi s s' := by
  intro b j _
  rw [get, get, h]

lemma KeepsOutside.trans (h : KeepsOutside list lo hi s₁ s₂) (h' : KeepsOutside list lo hi s₂ s₃) :
    KeepsOutside list lo hi s₁ s₃ := fun b j hout => (h' b j hout).trans (h b j hout)

lemma KeepsOutside.mono (h : KeepsOutside list lo hi s s') (hlo : lo' ≤ lo) (hhi : hi ≤ hi') :
    KeepsOutside list lo' hi' s s' := by
  refine fun b j hout => h b j fun hb => ?_
  obtain hlow | hhigh := hout hb
  · exact .inl (by omega)
  · exact .inr (by omega)

lemma KeepsOutside.set (list : Buffer) {i : ℕ} (value : α) (hlo : lo ≤ i) (hhi : i < hi) (s : Store α σ) :
    KeepsOutside list lo hi s (s.set list i value) := by
  refine fun b j hout => s.set_get_of_ne value fun hb => ?_
  obtain hlow | hhigh := hout hb <;> omega

lemma KeepsOutside.slice_eq (h : KeepsOutside list lo hi s s') {b : Buffer} (hout : b = list → hi' ≤ lo ∨ hi ≤ lo') :
    slice (s'.buffers b) lo' hi' = slice (s.buffers b) lo' hi' := by
  refine slice_congr fun i hlow hhigh => h b i fun hb => ?_
  obtain hbefore | hafter := hout hb
  · exact .inl (by omega)
  · exact .inr (by omega)

end Store

open Store

/-! ## Insertion sort -/

/-- The item goes to a place `k`, and what was from there on moves by one place. -/
lemma insertLoop_spec (hobeys : Obeys comparefn le consistent) {from_ hole : ℕ} {item : α} (hle : from_ ≤ hole)
    (h : insertLoop comparefn list from_ item hole s = some s') :
    ∃ k, from_ ≤ k ∧ k ≤ hole ∧ KeepsOutside list k (hole + 1) s s' ∧
      slice (s'.buffers list) k (hole + 1) = item :: slice (s.buffers list) k hole ∧
      (consistent → from_ < k → le (s.get list (k - 1)) item = true) ∧
      (consistent → ∀ y ∈ slice (s.buffers list) k hole, ¬ le y item = true) := by
  have hhere (s : Store α σ) (hole : ℕ) : slice ((s.set list hole item).buffers list) hole (hole + 1) =
      item :: slice (s.buffers list) hole hole := by
    rw [slice_cons (Nat.lt_succ_self hole), slice_eq_nil le_rfl, slice_eq_nil le_rfl]
    exact congrArg (· :: []) (set_get_self s list hole item)
  have hnone (s : Store α σ) (hole : ℕ) : consistent → ∀ y ∈ slice (s.buffers list) hole hole, ¬ le y item = true := by
    intro _ y hy
    rw [slice_eq_nil le_rfl] at hy
    cases hy
  induction hole generalizing s with
  | zero =>
    cases h
    exact ⟨0, hle, le_rfl, .set list item le_rfl (by omega) s, hhere s 0, fun _ hlt => absurd hlt (by omega), hnone s 0⟩
  | succ j ih =>
    rw [insertLoop] at h
    split_ifs at h
    · cases h
      exact ⟨j + 1, hle, le_rfl, .set list item le_rfl (by omega) s, hhere s (j + 1),
        fun _ hlt => absurd hlt (by omega), hnone s (j + 1)⟩
    · dsimp only at h
      cases hcompare : comparefn (s.get list j) item s with
      | none =>
        simp [hcompare] at h
      | some result =>
        obtain ⟨order, s₁⟩ := result
        rw [hcompare] at h
        dsimp only at h
        have hkeeps := hobeys.keeps hcompare
        split_ifs at h with horder
        · cases h
          refine ⟨j + 1, hle, le_rfl, .trans (.of_buffers hkeeps) (.set list item le_rfl (by omega) s₁), ?_,
            fun hc _ => (hobeys.answers hc hcompare).1 horder, hnone s (j + 1)⟩
          rw [hhere s₁ (j + 1), hkeeps]
        · obtain ⟨k, hlow, hhigh, hout, hslice, hbefore, hafter⟩ := ih (by omega) h
          have hmoved : KeepsOutside list (j + 1) (j + 2) s (s₁.set list (j + 1) (s.get list j)) :=
            .trans (.of_buffers hkeeps) (.set list _ le_rfl (by omega) s₁)
          have hsame : slice ((s₁.set list (j + 1) (s.get list j)).buffers list) k j = slice (s.buffers list) k j :=
            hmoved.slice_eq fun _ => .inl (by omega)
          rw [hsame] at hslice hafter
          refine ⟨k, hlow, by omega, ?_, ?_, fun hc hlt => ?_, fun hc y hy => ?_⟩
          · exact (hmoved.mono (by omega) le_rfl).trans (hout.mono le_rfl (by omega))
          · have hlast : s'.buffers list (j + 1) = s.buffers list j :=
              (hout list (j + 1) fun _ => .inr le_rfl).trans (set_get_self s₁ list (j + 1) _)
            rw [slice_concat (by omega), hslice, hlast, cons_append, ← slice_concat hhigh]
          · rw [← hmoved list (k - 1) fun _ => .inl (by omega)]
            exact hbefore hc hlt
          · rw [slice_concat hhigh] at hy
            obtain hy | hy := mem_append.1 hy
            · exact hafter hc y hy
            · obtain rfl := mem_singleton.1 hy
              exact mt (hobeys.answers hc hcompare).2 horder

lemma insertionSortLoop_spec (hobeys : Obeys comparefn le consistent) {from_ to_ i : ℕ} {xs : List α}
    (hlow : from_ < i) (hhigh : i ≤ to_ + 1) (hsorted : Rearranges le consistent xs (slice (s.buffers list) from_ i))
    (h : insertionSortLoop comparefn list from_ to_ i s = some s') :
    Rearranges le consistent (xs ++ slice (s.buffers list) i (to_ + 1)) (slice (s'.buffers list) from_ (to_ + 1)) ∧
      KeepsOutside list from_ (to_ + 1) s s' := by
  induction hn : to_ + 1 - i generalizing i s xs with
  | zero =>
    rw [insertionSortLoop, if_neg (by omega)] at h
    cases h
    obtain rfl : i = to_ + 1 := by omega
    rw [slice_eq_nil le_rfl, append_nil]
    exact ⟨hsorted, .refl _ _ _ _⟩
  | succ n ih =>
    rw [insertionSortLoop, if_pos (by omega)] at h
    obtain ⟨s₁, hinsert, hrest⟩ := bind_eq_some_iff.1 h
    obtain ⟨k, hk, hki, hout, hslice, hbefore, hafter⟩ := insertLoop_spec hobeys hlow.le hinsert
    have hstep : Rearranges le consistent (xs ++ [s.buffers list i]) (slice (s₁.buffers list) from_ (i + 1)) := by
      have hsame : slice (s₁.buffers list) from_ k = slice (s.buffers list) from_ k :=
        hout.slice_eq fun _ => .inl le_rfl
      rw [slice_append hk (by omega), hslice, hsame]
      refine Rearranges.insert hobeys.preorder (by rwa [← slice_append hk hki]) (fun hc y hy => ?_) hafter
      by_cases hempty : from_ = k
      · rw [hempty, slice_eq_nil le_rfl] at hy
        cases hy
      · obtain ⟨k, rfl⟩ := Nat.exists_eq_add_one_of_ne_zero (show k ≠ 0 by omega)
        rw [slice_concat (by omega), getLast?_concat] at hy
        cases hy
        exact hbefore hc (by omega)
    obtain ⟨hsorted', hout'⟩ := ih (by omega) (by omega) hstep hrest (by omega)
    refine ⟨?_, (hout.mono hk (by omega)).trans hout'⟩
    have hrest' : slice (s₁.buffers list) (i + 1) (to_ + 1) = slice (s.buffers list) (i + 1) (to_ + 1) :=
      hout.slice_eq fun _ => .inr le_rfl
    rw [hrest', append_assoc, singleton_append, ← slice_cons (by omega)] at hsorted'
    exact hsorted'

lemma insertionSort_of_le {from_ to_ : ℕ} (hle : to_ ≤ from_) : insertionSort comparefn list from_ to_ s = some s := by
  rw [insertionSort, insertionSortLoop, if_neg (by omega)]

lemma insertionSort_spec (hobeys : Obeys comparefn le consistent) {from_ hi : ℕ} (hlt : from_ < hi)
    (h : insertionSort comparefn list from_ (hi - 1) s = some s') :
    Rearranges le consistent (slice (s.buffers list) from_ hi) (slice (s'.buffers list) from_ hi) ∧
      KeepsOutside list from_ hi s s' := by
  have hone : Rearranges le consistent [s.buffers list from_] (slice (s.buffers list) from_ (from_ + 1)) := by
    rw [slice_concat le_rfl, slice_eq_nil le_rfl]
    exact .refl fun _ => pairwise_singleton _ _
  have hloop := insertionSortLoop_spec hobeys (Nat.lt_succ_self from_) (by omega) hone h
  rw [Nat.sub_add_cancel (by omega)] at hloop
  rw [slice_cons hlt]
  exact hloop

/-! ## Merging -/

lemma copyLoop_spec (hne : list ≠ out) (last i k : ℕ) (s : Store α σ) :
    (copyLoop list out last i k s).2 = k + (last + 1 - i) ∧
      KeepsOutside out k (k + (last + 1 - i)) s (copyLoop list out last i k s).1 ∧
      slice ((copyLoop list out last i k s).1.buffers out) k (k + (last + 1 - i)) =
        slice (s.buffers list) i (last + 1) := by
  induction hn : last + 1 - i generalizing i k s with
  | zero =>
    rw [copyLoop, if_neg (by omega)]
    exact ⟨rfl, .refl _ _ _ _, (slice_eq_nil le_rfl).trans (slice_eq_nil (by omega)).symm⟩
  | succ n ih =>
    rw [copyLoop, if_pos (by omega)]
    obtain ⟨hk, hout, hslice⟩ := ih (i + 1) (k + 1) (s.set out k (s.get list i)) (by omega)
    have hset : KeepsOutside out k (k + 1) s (s.set out k (s.get list i)) := .set out _ le_rfl (by omega) s
    rw [hset.slice_eq fun heq => absurd heq hne] at hslice
    have hend : k + (n + 1) = k + 1 + n := by omega
    rw [hend]
    refine ⟨hk, (hset.mono le_rfl (by omega)).trans (hout.mono (by omega) le_rfl), ?_⟩
    have hfirst := (hout out k fun _ => .inl (by omega)).trans (set_get_self s out k _)
    rw [slice_cons (by omega), hslice, slice_cons (show i < last + 1 by omega)]
    exact congrArg (· :: _) hfirst

lemma copyBoth_spec (hne : list ≠ out) (mid end_ i j k : ℕ) (s : Store α σ) :
    KeepsOutside out k (k + ((mid + 1 - i) + (end_ + 1 - j))) s
        (copyLoop list out end_ j (copyLoop list out mid i k s).2 (copyLoop list out mid i k s).1).1 ∧
      slice ((copyLoop list out end_ j (copyLoop list out mid i k s).2 (copyLoop list out mid i k s).1).1.buffers out) k
          (k + ((mid + 1 - i) + (end_ + 1 - j))) =
        slice (s.buffers list) i (mid + 1) ++ slice (s.buffers list) j (end_ + 1) := by
  obtain ⟨hk, hout, hslice⟩ := copyLoop_spec hne mid i k s
  obtain ⟨-, hout', hslice'⟩ := copyLoop_spec hne end_ j (copyLoop list out mid i k s).2 (copyLoop list out mid i k s).1
  rw [hout.slice_eq fun heq => absurd heq hne] at hslice'
  rw [hk] at hout' hslice' ⊢
  rw [← Nat.add_assoc]
  refine ⟨(hout.mono le_rfl (by omega)).trans (hout'.mono (by omega) le_rfl), ?_⟩
  rw [slice_append (Nat.le_add_right k (mid + 1 - i)) (by omega), hslice', hout'.slice_eq fun _ => .inl le_rfl, hslice]

lemma mergeLoop_spec (hobeys : Obeys comparefn le consistent) (hne : list ≠ out) {mid end_ i j k : ℕ}
    (h : mergeLoop comparefn list out mid end_ i j k s = some s') :
    KeepsOutside out k (k + ((mid + 1 - i) + (end_ + 1 - j))) s s' ∧
      Merges le consistent (slice (s.buffers list) i (mid + 1)) (slice (s.buffers list) j (end_ + 1))
        (slice (s'.buffers out) k (k + ((mid + 1 - i) + (end_ + 1 - j)))) := by
  induction hn : (mid + 1 - i) + (end_ + 1 - j) generalizing i j k s with
  | zero =>
    rw [mergeLoop, if_neg (by omega)] at h
    cases h
    have hcopies := copyBoth_spec hne mid end_ i j k s
    rw [hn] at hcopies
    rw [hcopies.2, slice_eq_nil (show mid + 1 ≤ i by omega)]
    exact ⟨hcopies.1, .nil_left _⟩
  | succ n ih =>
    rw [mergeLoop] at h
    have hend : k + (n + 1) = k + 1 + n := by omega
    by_cases hboth : i ≤ mid ∧ j ≤ end_
    · rw [if_pos hboth] at h
      dsimp only at h
      cases hcompare : comparefn (s.get list i) (s.get list j) s with
      | none =>
        simp [hcompare] at h
      | some result =>
        obtain ⟨order, s₁⟩ := result
        rw [hcompare] at h
        dsimp only at h
        have hset (value : α) : KeepsOutside out k (k + 1) s (s₁.set out k value) :=
          .trans (.of_buffers (hobeys.keeps hcompare)) (.set out value le_rfl (by omega) s₁)
        rw [hend, slice_cons (show i < mid + 1 by omega), slice_cons (show j < end_ + 1 by omega),
          slice_cons (show k < k + 1 + n by omega)]
        split_ifs at h with horder
        · obtain ⟨hout, hmerges⟩ := ih h (by omega)
          rw [(hset _).slice_eq fun heq => absurd heq hne, (hset _).slice_eq fun heq => absurd heq hne] at hmerges
          have hfirst : s'.buffers out k = s.buffers list i :=
            (hout out k fun _ => .inl (by omega)).trans (set_get_self s₁ out k _)
          rw [slice_cons (show j < end_ + 1 by omega)] at hmerges
          rw [hfirst]
          exact ⟨((hset _).mono le_rfl (by omega)).trans (hout.mono (by omega) le_rfl),
            hmerges.take_left hobeys.preorder fun hc => (hobeys.answers hc hcompare).1 horder⟩
        · obtain ⟨hout, hmerges⟩ := ih h (by omega)
          rw [(hset _).slice_eq fun heq => absurd heq hne, (hset _).slice_eq fun heq => absurd heq hne] at hmerges
          have hfirst : s'.buffers out k = s.buffers list j :=
            (hout out k fun _ => .inl (by omega)).trans (set_get_self s₁ out k _)
          rw [slice_cons (show i < mid + 1 by omega)] at hmerges
          rw [hfirst]
          exact ⟨((hset _).mono le_rfl (by omega)).trans (hout.mono (by omega) le_rfl),
            hmerges.take_right hobeys.preorder fun hc => mt (hobeys.answers hc hcompare).2 horder⟩
    · -- One of the two slices is empty, and the other one is copied.
      rw [if_neg hboth] at h
      cases h
      have hcopies := copyBoth_spec hne mid end_ i j k s
      rw [hn] at hcopies
      refine ⟨hcopies.1, ?_⟩
      rw [hcopies.2]
      by_cases hleft : i ≤ mid
      · rw [slice_eq_nil (show end_ + 1 ≤ j by omega), append_nil]
        exact .nil_right _
      · rw [slice_eq_nil (show mid + 1 ≤ i by omega)]
        exact .nil_left _

lemma merge_spec (hobeys : Obeys comparefn le consistent) (hne : list ≠ out) {start mid hi : ℕ} (hlow : start ≤ mid)
    (hlt : start < hi) (h : merge comparefn list out start mid (hi - 1) s = some s') :
    KeepsOutside out start hi s s' ∧
      Merges le consistent (slice (s.buffers list) start (min (mid + 1) hi)) (slice (s.buffers list) (mid + 1) hi)
        (slice (s'.buffers out) start hi) := by
  have hhi : hi - 1 + 1 = hi := by omega
  have hcopy := copyLoop_spec hne (hi - 1) start start s
  rw [hhi, Nat.add_sub_cancel' hlt.le] at hcopy
  rw [merge] at h
  split_ifs at h
  · cases h
    rw [hcopy.2.2, Nat.min_eq_right (by omega), slice_eq_nil (show hi ≤ mid + 1 by omega)]
    exact ⟨hcopy.2.1, .nil_right _⟩
  · rw [Nat.min_eq_left (by omega)]
    cases hcompare : comparefn (s.get list mid) (s.get list (mid + 1)) s with
    | none =>
      simp [hcompare] at h
    | some result =>
      obtain ⟨order, s₁⟩ := result
      rw [hcompare] at h
      dsimp only at h
      have hkeeps := hobeys.keeps hcompare
      split_ifs at h with horder
      · cases h
        have hcopy' := copyLoop_spec hne (hi - 1) start start s₁
        rw [hhi, Nat.add_sub_cancel' hlt.le, hkeeps] at hcopy'
        refine ⟨.trans (.of_buffers hkeeps) hcopy'.2.1, ?_⟩
        have hsplit := slice_append (b := s.buffers list) (show start ≤ mid + 1 by omega) (show mid + 1 ≤ hi by omega)
        rw [hcopy'.2.2, hsplit]
        refine .of_boundary hobeys.preorder fun hc x hx y hy => ?_
        rw [slice_concat hlow, getLast?_concat] at hx
        rw [slice_cons (by omega), head?_cons] at hy
        cases hx
        cases hy
        exact (hobeys.answers hc hcompare).1 horder
      · have hloop := mergeLoop_spec hobeys hne h
        rw [hhi, show start + ((mid + 1 - start) + (hi - (mid + 1))) = hi by omega, hkeeps] at hloop
        exact ⟨.trans (.of_buffers hkeeps) hloop.1, hloop.2⟩

/-! ## Passes -/

/-- Each window is a rearrangement of what has been there. -/
def SortedWindows (le : α → α → Bool) (consistent : Prop) (xs b : ℕ → α) (len windowSize : ℕ) : Prop :=
  ∀ start, windowSize ∣ start → start < len →
    Rearranges le consistent (slice xs start (min (start + windowSize) len)) (slice b start (min (start + windowSize) len))

lemma initialRanges_spec (hobeys : Obeys comparefn le consistent) {len start : ℕ} (hdvd : 4 ∣ start)
    (h : initialRanges comparefn list len start s = some s') :
    KeepsOutside list start len s s' ∧ ∀ start', 4 ∣ start' → start ≤ start' → start' < len →
      Rearranges le consistent (slice (s.buffers list) start' (min (start' + 4) len))
        (slice (s'.buffers list) start' (min (start' + 4) len)) := by
  induction hn : len - start using Nat.strong_induction_on generalizing start s with
  | h n ih =>
    rw [initialRanges] at h
    split_ifs at h
    · rw [show min (start + 4 - 1) (len - 1) = min (start + 4) len - 1 by omega] at h
      obtain ⟨s₁, hinsertion, hrest⟩ := bind_eq_some_iff.1 h
      obtain ⟨hsorted, hout⟩ := insertionSort_spec hobeys (by omega) hinsertion
      obtain ⟨hout', hsorted'⟩ := ih (len - (start + 4)) (by omega) (Nat.dvd_add hdvd (dvd_refl 4)) hrest rfl
      refine ⟨(hout.mono le_rfl (by omega)).trans (hout'.mono (by omega) le_rfl), fun start' hdvd' hle hlt => ?_⟩
      by_cases heq : start' = start
      · subst heq
        rw [hout'.slice_eq fun _ => .inl (by omega)]
        exact hsorted
      · have hlater := hsorted' start' hdvd' (by omega) hlt
        rwa [hout.slice_eq fun _ => .inr (by omega)] at hlater
    · cases h
      refine ⟨.refl _ _ _ _, fun start' _ hle hlt => .refl fun _ => ?_⟩
      simp [show min (start' + 4) len = start' + 1 by omega, slice_concat le_rfl, slice_eq_nil le_rfl]

lemma slice_halves (b : ℕ → α) (start w len : ℕ) :
    slice b start (min (start + w) len) ++ slice b (start + w) (min (start + 2 * w) len) =
      slice b start (min (start + 2 * w) len) := by
  by_cases hle : start + w ≤ len
  · rw [Nat.min_eq_left hle, ← slice_append (Nat.le_add_right _ _) (by omega)]
  · rw [slice_eq_nil (show min (start + 2 * w) len ≤ start + w by omega), append_nil]
    congr 1
    omega

lemma mergePass_spec (hobeys : Obeys comparefn le consistent) (hne : list ≠ out) {len start : ℕ} {windowSize : ℕ+}
    {xs : ℕ → α} (hwindows : SortedWindows le consistent xs (s.buffers list) len windowSize)
    (hdvd : 2 * (windowSize : ℕ) ∣ start)
    (h : mergePass comparefn merge list out len windowSize start s = some s') :
    KeepsOutside out start len s s' ∧ ∀ start', 2 * (windowSize : ℕ) ∣ start' → start ≤ start' → start' < len →
      Rearranges le consistent (slice xs start' (min (start' + 2 * windowSize) len))
        (slice (s'.buffers out) start' (min (start' + 2 * windowSize) len)) := by
  have hpos := windowSize.pos
  induction hn : len - start using Nat.strong_induction_on generalizing start s with
  | h n ih =>
    rw [mergePass] at h
    by_cases hmore : start < len
    · rw [if_pos hmore, show min (start + 2 * (windowSize : ℕ) - 1) (len - 1) =
        min (start + 2 * windowSize) len - 1 by omega] at h
      obtain ⟨s₁, hmerge, hrest⟩ := bind_eq_some_iff.1 h
      obtain ⟨hout, hmerges⟩ := merge_spec hobeys hne (by omega) (by omega) hmerge
      have hother (lo hi : ℕ) : slice (s₁.buffers list) lo hi = slice (s.buffers list) lo hi :=
        hout.slice_eq fun heq => absurd heq hne
      obtain ⟨hout', hsorted'⟩ := ih (len - (start + 2 * windowSize)) (by omega)
        (fun start' hdvd' hlt => by rw [hother]; exact hwindows start' hdvd' hlt)
        (Nat.dvd_add hdvd (dvd_refl _)) hrest rfl
      refine ⟨(hout.mono le_rfl (by omega)).trans (hout'.mono (by omega) le_rfl), fun start' hdvd' hle hlt => ?_⟩
      by_cases heq : start' = start
      · subst heq
        have hdvd₁ : (windowSize : ℕ) ∣ start' := (Dvd.intro_left 2 rfl).trans hdvd
        have hleft := hwindows start' hdvd₁ hmore
        have hright : Rearranges le consistent (slice xs (start' + windowSize) (min (start' + 2 * windowSize) len))
            (slice (s.buffers list) (start' + windowSize) (min (start' + 2 * windowSize) len)) := by
          by_cases hlt' : start' + windowSize < len
          · have hwindow := hwindows (start' + windowSize) (Nat.dvd_add hdvd₁ (dvd_refl _)) hlt'
            rwa [show start' + (windowSize : ℕ) + windowSize = start' + 2 * windowSize by omega] at hwindow
          · rw [slice_eq_nil (by omega), slice_eq_nil (by omega)]
            exact .refl fun _ => .nil
        rw [show start' + (windowSize : ℕ) - 1 + 1 = start' + windowSize by omega,
          show min (start' + (windowSize : ℕ)) (min (start' + 2 * windowSize) len) = min (start' + windowSize) len
            by omega] at hmerges
        rw [hout'.slice_eq fun _ => .inl (by omega), ← slice_halves]
        exact hmerges.rearranges hleft hright
      · have hfar : start + 2 * windowSize ≤ start' := by
          obtain ⟨m, rfl⟩ := hdvd
          obtain ⟨m', rfl⟩ := hdvd'
          have hm : m < m' := by
            by_contra hnot
            have hmul := Nat.mul_le_mul_left (2 * (windowSize : ℕ)) (Nat.le_of_not_lt hnot)
            omega
          have hmul := Nat.mul_le_mul_left (2 * (windowSize : ℕ)) hm
          rw [Nat.mul_succ] at hmul
          exact hmul
        exact hsorted' start' hdvd' hfar hlt
    · rw [if_neg hmore] at h
      cases h
      exact ⟨.refl _ _ _ _, fun start' _ hle hlt => absurd hlt (by omega)⟩

lemma mergePasses_spec (hobeys : Obeys comparefn le consistent) {lBuffer rBuffer lBuffer' : Buffer}
    (hne : lBuffer ≠ rBuffer) {len : ℕ} {windowSize : ℕ+} {xs : ℕ → α}
    (hwindows : SortedWindows le consistent xs (s.buffers lBuffer) len windowSize)
    (h : mergePasses comparefn merge lBuffer rBuffer len windowSize s = some (lBuffer', s')) :
    Rearranges le consistent (slice xs 0 len) (slice (s'.buffers lBuffer') 0 len) ∧
      ∀ b j, len ≤ j → s'.get b j = s.get b j := by
  have hpos := windowSize.pos
  induction hn : len - windowSize using Nat.strong_induction_on generalizing lBuffer rBuffer windowSize s with
  | h n ih =>
    rw [mergePasses] at h
    split_ifs at h
    · obtain ⟨s₁, hpass, hrest⟩ := bind_eq_some_iff.1 h
      obtain ⟨hout, hsorted⟩ := mergePass_spec hobeys hne hwindows (dvd_zero _) hpass
      have hdouble : ((2 * windowSize : ℕ+) : ℕ) = 2 * windowSize := rfl
      have hwindows' : SortedWindows le consistent xs (s₁.buffers rBuffer) len (2 * windowSize : ℕ+) :=
        fun start hdvd hlt => hsorted start hdvd (Nat.zero_le _) hlt
      obtain ⟨hsorted', hout'⟩ := ih (len - (2 * windowSize : ℕ+)) (by omega) hne.symm hwindows' hrest
        (2 * windowSize).pos rfl
      exact ⟨hsorted', fun b j hj => (hout' b j hj).trans (hout b j fun _ => .inr hj)⟩
    · cases h
      refine ⟨?_, fun _ _ _ => rfl⟩
      by_cases hempty : len = 0
      · simpa [hempty] using .refl fun _ => .nil
      · have hwindow := hwindows 0 (dvd_zero _) (by omega)
        rwa [Nat.zero_add, Nat.min_eq_right (by omega)] at hwindow

/-- Ranges of four elements are sorted, and then merged. -/
lemma passes_spec (hobeys : Obeys comparefn le consistent) {len : ℕ} {s₁ : Store α σ} {lBuffer : Buffer}
    (hranges : initialRanges comparefn .given len 0 s = some s₁)
    (hpasses : mergePasses comparefn merge .given .scratch len 4 s₁ = some (lBuffer, s')) :
    Rearranges le consistent (slice (s.buffers .given) 0 len) (slice (s'.buffers lBuffer) 0 len) ∧
      ∀ b j, len ≤ j → s'.get b j = s.get b j := by
  obtain ⟨hout, hsorted⟩ := initialRanges_spec hobeys (dvd_zero 4) hranges
  have hwindows : SortedWindows le consistent (s.buffers .given) (s₁.buffers .given) len (4 : ℕ+) :=
    fun start hdvd hlt => hsorted start hdvd (Nat.zero_le _) hlt
  obtain ⟨hsorted', hout'⟩ := mergePasses_spec hobeys (by decide) hwindows hpasses
  exact ⟨hsorted', fun b j hj => (hout' b j hj).trans (hout b j fun _ => .inr hj)⟩

/-! ## Returning -/

section Returns

variable (hreturns : ∀ x y s, comparefn x y s ≠ none)
include hreturns

lemma insertLoop_isSome (list : Buffer) (from_ : ℕ) (item : α) (hole : ℕ) (s : Store α σ) :
    ∃ s', insertLoop comparefn list from_ item hole s = some s' := by
  induction hole generalizing s with
  | zero => exact ⟨_, rfl⟩
  | succ j ih =>
    rw [insertLoop]
    obtain ⟨⟨order, s₁⟩, hcompare⟩ := ne_none_iff_exists'.1 (hreturns (s.get list j) item s)
    dsimp only
    rw [hcompare]
    dsimp only
    by_cases hfirst : j < from_
    · simp [hfirst]
    · by_cases horder : order ≤ 0
      · simp [hfirst, horder]
      · rw [if_neg hfirst, if_neg horder]
        exact ih _

lemma insertionSort_isSome (list : Buffer) (from_ to_ : ℕ) (s : Store α σ) :
    ∃ s', insertionSort comparefn list from_ to_ s = some s' := by
  rw [insertionSort]
  generalize from_ + 1 = i
  induction hn : to_ + 1 - i generalizing i s with
  | zero =>
    rw [insertionSortLoop, if_neg (by omega)]
    exact ⟨_, rfl⟩
  | succ n ih =>
    obtain ⟨s₁, hinsert⟩ := insertLoop_isSome hreturns list from_ (s.get list i) i s
    rw [insertionSortLoop, if_pos (by omega), hinsert]
    exact ih s₁ (i + 1) (by omega)

lemma mergeLoop_isSome (list out : Buffer) (mid end_ i j k : ℕ) (s : Store α σ) :
    ∃ s', mergeLoop comparefn list out mid end_ i j k s = some s' := by
  induction hn : (mid + 1 - i) + (end_ + 1 - j) using Nat.strong_induction_on generalizing i j k s with
  | h n ih =>
    rw [mergeLoop]
    by_cases hboth : i ≤ mid ∧ j ≤ end_
    · obtain ⟨⟨order, s₁⟩, hcompare⟩ := ne_none_iff_exists'.1 (hreturns (s.get list i) (s.get list j) s)
      rw [if_pos hboth]
      dsimp only
      rw [hcompare]
      dsimp only
      split_ifs
      · exact ih _ (by omega) _ _ _ _ rfl
      · exact ih _ (by omega) _ _ _ _ rfl
    · simp [hboth]

lemma merge_isSome (list out : Buffer) (start mid end_ : ℕ) (s : Store α σ) :
    ∃ s', merge comparefn list out start mid end_ s = some s' := by
  rw [merge]
  obtain ⟨⟨order, s₁⟩, hcompare⟩ := ne_none_iff_exists'.1 (hreturns (s.get list mid) (s.get list (mid + 1)) s)
  rw [hcompare]
  dsimp only
  by_cases hlopsided : end_ ≤ mid
  · simp [hlopsided]
  · by_cases horder : order ≤ 0
    · simp [hlopsided, horder]
    · rw [if_neg hlopsided, if_neg horder]
      exact mergeLoop_isSome hreturns _ _ _ _ _ _ _ _

lemma initialRanges_isSome (list : Buffer) (len start : ℕ) (s : Store α σ) :
    ∃ s', initialRanges comparefn list len start s = some s' := by
  induction hn : len - start using Nat.strong_induction_on generalizing start s with
  | h n ih =>
    rw [initialRanges]
    by_cases hmore : start < len - 1
    · obtain ⟨s₁, hinsertion⟩ :=
        insertionSort_isSome hreturns list start (min (start + 4 - 1) (len - 1)) s
      rw [if_pos hmore]
      dsimp only
      rw [hinsertion]
      exact ih _ (by omega) _ _ rfl
    · simp [hmore]

lemma mergePass_isSome (list out : Buffer) (len : ℕ) (windowSize : ℕ+) (start : ℕ) (s : Store α σ) :
    ∃ s', mergePass comparefn merge list out len windowSize start s = some s' := by
  have hpos := windowSize.pos
  induction hn : len - start using Nat.strong_induction_on generalizing start s with
  | h n ih =>
    rw [mergePass]
    by_cases hmore : start < len
    · obtain ⟨s₁, hmerge⟩ := merge_isSome hreturns list out start (start + windowSize - 1)
        (min (start + 2 * windowSize - 1) (len - 1)) s
      rw [if_pos hmore]
      dsimp only
      rw [hmerge]
      exact ih _ (by omega) _ _ rfl
    · simp [hmore]

lemma mergePasses_isSome (lBuffer rBuffer : Buffer) (len : ℕ) (windowSize : ℕ+) (s : Store α σ) :
    ∃ result, mergePasses comparefn merge lBuffer rBuffer len windowSize s = some result := by
  induction hn : len - windowSize using Nat.strong_induction_on generalizing lBuffer rBuffer windowSize s with
  | h n ih =>
    have hpos := windowSize.pos
    have hdouble : ((2 * windowSize : ℕ+) : ℕ) = 2 * windowSize := rfl
    rw [mergePasses]
    by_cases hmore : windowSize < len
    · obtain ⟨s₁, hpass⟩ := mergePass_isSome hreturns lBuffer rBuffer len windowSize 0 s
      rw [if_pos hmore, hpass]
      exact ih _ (by omega) _ _ _ _ rfl
    · simp [hmore]

end Returns

/-! ## Array-like objects -/

lemma collectDense_spec (array : ArrayLike α) (len i : ℕ) (denseList : ℕ → α) (denseLen : ℕ) :
    slice (collectDense array len i denseList denseLen).1 0 (collectDense array len i denseList denseLen).2 =
      slice denseList 0 denseLen ++ (List.range' i (len - i)).filterMap array.get := by
  induction hn : len - i generalizing i denseList denseLen with
  | zero =>
    rw [collectDense, if_neg (by omega)]
    exact (append_nil _).symm
  | succ n ih =>
    rw [collectDense, if_pos (by omega), range'_succ]
    cases hget : array.get i with
    | none =>
      rw [filterMap_cons_none hget]
      exact ih _ _ _ (by omega)
    | some value =>
      rw [filterMap_cons_some hget]
      refine (ih _ _ _ (by omega)).trans ?_
      rw [slice_concat (Nat.zero_le _), update_self, append_assoc]
      congr 1
      exact slice_congr fun j _ hj => update_of_ne (by omega) _ _

lemma collectDense_present (array : ArrayLike α) (len : ℕ) (blank : ℕ → α) :
    slice (collectDense array len 0 blank 0).1 0 (collectDense array len 0 blank 0).2 = array.present len := by
  rw [collectDense_spec, slice_eq_nil le_rfl, ArrayLike.present, range_eq_range']
  rfl

lemma moveDense_own (dense : ℕ → α) (denseLen i : ℕ) (sparse : ArrayLike α) (k : ℕ) :
    (moveDense dense denseLen i sparse).own k = if i ≤ k ∧ k < denseLen then some (dense k) else sparse.own k := by
  induction hn : denseLen - i generalizing i sparse with
  | zero => rw [moveDense, if_neg (by omega), if_neg (by omega)]
  | succ n ih =>
    rw [moveDense, if_pos (by omega), ih _ _ (by omega), ArrayLike.set]
    by_cases heq : k = i
    · rw [if_neg (by omega), if_pos (by omega), heq]
      exact update_self _ _ _
    · dsimp only
      rw [update_of_ne heq]
      exact if_congr (by omega) rfl rfl

lemma deleteRest_own (sparseLen j : ℕ) (sparse : ArrayLike α) (k : ℕ) :
    (deleteRest sparseLen j sparse).own k = if j ≤ k ∧ k < sparseLen then none else sparse.own k := by
  induction hn : sparseLen - j generalizing j sparse with
  | zero => rw [deleteRest, if_neg (by omega), if_neg (by omega)]
  | succ n ih =>
    rw [deleteRest, if_pos (by omega), ih _ _ (by omega), ArrayLike.delete]
    by_cases heq : k = j
    · rw [if_neg (by omega), if_pos (by omega), heq]
      exact update_self _ _ _
    · dsimp only
      rw [update_of_ne heq]
      exact if_congr (by omega) rfl rfl

lemma moveHoles_own (sparse : ArrayLike α) (sparseLen : ℕ) (dense : ℕ → α) (denseLen : ℕ) {i : ℕ} (hi : i < sparseLen) :
    (moveHoles sparse sparseLen dense denseLen).own i = (slice dense 0 denseLen)[i]? := by
  rw [moveHoles, deleteRest_own, moveDense_own]
  by_cases hdense : i < denseLen
  · rw [if_neg (by omega), if_pos ⟨Nat.zero_le _, hdense⟩, getElem?_slice dense denseLen i hdense]
  · rw [if_pos ⟨by omega, hi⟩, getElem?_eq_none (by rw [length_slice]; omega)]

lemma copyBack_get {lBuffer : Buffer} (hne : lBuffer ≠ .given) (len i : ℕ) (s : Store α σ) (j : ℕ) :
    (copyBack lBuffer len i s).get .given j = if i ≤ j ∧ j < len then s.get lBuffer j else s.get .given j := by
  induction hn : len - i generalizing i s with
  | zero => rw [copyBack, if_neg (by omega), if_neg (by omega)]
  | succ n ih =>
    rw [copyBack, if_pos (by omega), ih _ _ (by omega), s.set_get_of_ne _ fun heq => absurd heq hne]
    by_cases heq : j = i
    · rw [if_neg (by omega), if_pos (by omega), heq, set_get_self]
    · rw [s.set_get_of_ne _ fun _ => heq]
      exact if_congr (by omega) rfl rfl

/-! ## The sorts -/

/-- The comparator is that of a total preorder. -/
def Answers {S : Type*} (comparefn : Comparator α S) (le : α → α → Bool) : Prop :=
  IsTotalPreorder le ∧ ∀ x y w order w', comparefn x y w = some (order, w') → (order ≤ 0 ↔ le x y = true)

lemma obeys_overWorld (comparefn : Comparator α σ) (le : α → α → Bool) :
    Obeys (overWorld comparefn) le (Answers comparefn le) where
  keeps h := by
    obtain ⟨result, -, heq⟩ := map_eq_some_iff.1 h
    cases heq
    rfl
  preorder h := h.1
  answers h := by
    intro x y s order s' hcompare
    obtain ⟨⟨order, world⟩, hanswer, heq⟩ := map_eq_some_iff.1 hcompare
    cases heq
    exact h.2 x y _ _ _ hanswer

/-- The comparator does not write to the array. -/
def KeepsArray (comparefn : Comparator α ((ℕ → α) × σ)) : Prop :=
  ∀ x y w order w', comparefn x y w = some (order, w') → w'.1 = w.1

lemma obeys_overTypedArray {comparefn : Comparator α ((ℕ → α) × σ)} (hkeeps : KeepsArray comparefn)
    (le : α → α → Bool) : Obeys (overTypedArray comparefn) le (Answers comparefn le) where
  keeps h := by
    obtain ⟨⟨order, array, world⟩, hanswer, heq⟩ := map_eq_some_iff.1 h
    cases heq
    obtain rfl : array = _ := hkeeps _ _ _ _ _ hanswer
    exact update_eq_self _ _
  preorder h := h.1
  answers h := by
    intro x y s order s' hcompare
    obtain ⟨⟨order, array, world⟩, hanswer, heq⟩ := map_eq_some_iff.1 hcompare
    cases heq
    exact h.2 x y _ _ _ hanswer

variable [Inhabited α]

lemma mergeSort_isSome {comparefn : Comparator α (ArrayLike α × σ)} (hreturns : ∀ x y w, comparefn x y w ≠ none)
    (len : ℕ) (world : ArrayLike α × σ) : ∃ result, mergeSort comparefn len world = some result := by
  have hover (x y : α) (s : Store α (ArrayLike α × σ)) : overWorld comparefn x y s ≠ none :=
    fun h => hreturns x y s.world (map_eq_none_iff.1 h)
  rw [mergeSort]
  generalize collectDense world.1 len 0 (fun _ => default) 0 = dense
  obtain ⟨denseList, denseLen⟩ := dense
  dsimp only
  by_cases hempty : denseLen < 1
  · rw [if_pos hempty]
    exact ⟨_, rfl⟩
  · rw [if_neg hempty]
    generalize ({ buffers := _, world := world } : Store α (ArrayLike α × σ)) = s
    by_cases hsmall : denseLen < 24
    · obtain ⟨s', hinsertion⟩ := insertionSort_isSome hover .given 0 (denseLen - 1) s
      rw [if_pos hsmall, hinsertion]
      exact ⟨_, rfl⟩
    · obtain ⟨s₁, hranges⟩ := initialRanges_isSome hover .given denseLen 0 s
      obtain ⟨⟨lBuffer, s'⟩, hpasses⟩ := mergePasses_isSome hover .given .scratch denseLen 4 s₁
      rw [if_neg hsmall, hranges]
      change ∃ result, (mergePasses (overWorld comparefn) merge .given .scratch denseLen 4 s₁).bind _ = some result
      rw [hpasses]
      exact ⟨_, rfl⟩

lemma mergeSort_spec {comparefn : Comparator α (ArrayLike α × σ)} (le : α → α → Bool) {len : ℕ} {array array' : ArrayLike α}
    {world world' : σ} (h : mergeSort comparefn len (array, world) = some (array', world')) :
    ∃ sorted, Rearranges le (Answers comparefn le) (array.present len) sorted ∧
      ∀ i < len, array'.own i = sorted[i]? := by
  have hobeys := obeys_overWorld comparefn le
  have hpresent := collectDense_present array len fun _ => default
  rw [mergeSort] at h
  dsimp only at h
  generalize collectDense array len 0 (fun _ => default) 0 = dense at h hpresent
  obtain ⟨denseList, denseLen⟩ := dense
  dsimp only at h hpresent
  have hgiven : ({ buffers := Function.update (fun _ _ => default) .given denseList, world := (array, world) } :
      Store α (ArrayLike α × σ)).buffers .given = denseList := by
    dsimp only
    simp
  generalize ({ buffers := _, world := (array, world) } : Store α (ArrayLike α × σ)) = s at h hgiven
  by_cases hempty : denseLen < 1
  · rw [if_pos hempty] at h
    cases h
    rw [slice_eq_nil (by omega)] at hpresent
    refine ⟨[], by rw [← hpresent]; exact .refl fun _ => .nil, fun i hi => ?_⟩
    have hget := filterMap_eq_nil_iff.1 hpresent.symm i (mem_range.2 hi)
    exact (or_eq_none_iff.1 hget).1
  · rw [if_neg hempty] at h
    by_cases hsmall : denseLen < 24
    · rw [if_pos hsmall] at h
      obtain ⟨s', hinsertion, hresult⟩ := bind_eq_some_iff.1 h
      cases hresult
      obtain ⟨hsorted, -⟩ := insertionSort_spec hobeys (by omega) hinsertion
      rw [hgiven, hpresent] at hsorted
      exact ⟨_, hsorted, fun i hi => moveHoles_own _ _ _ _ hi⟩
    · rw [if_neg hsmall] at h
      obtain ⟨s₁, hranges, hrest⟩ := bind_eq_some_iff.1 h
      obtain ⟨⟨lBuffer, s'⟩, hpasses, hresult⟩ := bind_eq_some_iff.1 hrest
      cases hresult
      obtain ⟨hsorted, -⟩ := passes_spec hobeys hranges hpasses
      rw [hgiven, hpresent] at hsorted
      exact ⟨_, hsorted, fun i hi => moveHoles_own _ _ _ _ hi⟩

lemma mergeSortTypedArray_isSome {comparefn : Comparator α ((ℕ → α) × σ)} (hreturns : ∀ x y w, comparefn x y w ≠ none)
    (len : ℕ) (world : (ℕ → α) × σ) : ∃ result, mergeSortTypedArray comparefn len world = some result := by
  have hover (x y : α) (s : Store α σ) : overTypedArray comparefn x y s ≠ none :=
    fun h => hreturns x y _ (map_eq_none_iff.1 h)
  rw [mergeSortTypedArray]
  dsimp only
  generalize ({ buffers := _, world := world.2 } : Store α σ) = s
  by_cases hsmall : len < 8
  · obtain ⟨s', hinsertion⟩ := insertionSort_isSome hover .given 0 (len - 1) s
    simp [hsmall, hinsertion]
  · obtain ⟨s₁, hranges⟩ := initialRanges_isSome hover .given len 0 s
    obtain ⟨⟨lBuffer, s'⟩, hpasses⟩ := mergePasses_isSome hover .given .scratch len 4 s₁
    rw [if_neg hsmall, hranges]
    change ∃ result, (mergePasses (overTypedArray comparefn) merge .given .scratch len 4 s₁).bind _ = some result
    simp [hpasses]

lemma mergeSortTypedArray_spec {comparefn : Comparator α ((ℕ → α) × σ)} (hkeeps : KeepsArray comparefn)
    (le : α → α → Bool) {len : ℕ} {array array' : ℕ → α} {world world' : σ}
    (h : mergeSortTypedArray comparefn len (array, world) = some (array', world')) :
    Rearranges le (Answers comparefn le) (slice array 0 len) (slice array' 0 len) ∧
      ∀ i, len ≤ i → array' i = array i := by
  have hobeys := obeys_overTypedArray hkeeps le
  rw [mergeSortTypedArray] at h
  dsimp only at h
  have hgiven : ({ buffers := Function.update (fun _ _ => default) .given array, world := world } : Store α σ).buffers
      .given = array := by
    dsimp only
    rw [update_self]
  generalize ({ buffers := _, world := world } : Store α σ) = s at h hgiven
  split_ifs at h
  · obtain ⟨s', hinsertion, hresult⟩ := bind_eq_some_iff.1 h
    cases hresult
    by_cases hempty : len = 0
    · rw [insertionSort_of_le (by omega)] at hinsertion
      cases hinsertion
      rw [hgiven, hempty, slice_eq_nil le_rfl]
      exact ⟨.refl fun _ => .nil, fun _ _ => rfl⟩
    · obtain ⟨hsorted, hout⟩ := insertionSort_spec hobeys (by omega) hinsertion
      rw [hgiven] at hsorted
      exact ⟨hsorted, fun i hi => (hout .given i fun _ => .inr hi).trans (congrFun hgiven i)⟩
  · obtain ⟨s₁, hranges, hrest⟩ := bind_eq_some_iff.1 h
    obtain ⟨⟨lBuffer, s'⟩, hpasses, hresult⟩ := bind_eq_some_iff.1 hrest
    obtain ⟨hsorted, hout⟩ := passes_spec hobeys hranges hpasses
    rw [hgiven] at hsorted
    have hbeyond (i : ℕ) (hi : len ≤ i) : s'.buffers .given i = array i := (hout .given i hi).trans (congrFun hgiven i)
    dsimp only at hresult
    split_ifs at hresult with hback
    · cases hresult
      have hcopied : slice ((copyBack lBuffer len 0 s').buffers .given) 0 len = slice (s'.buffers lBuffer) 0 len :=
        slice_congr fun i _ hi => (copyBack_get hback len 0 s' i).trans (if_pos ⟨Nat.zero_le _, hi⟩)
      rw [hcopied]
      exact ⟨hsorted, fun i hi =>
        ((copyBack_get hback len 0 s' i).trans (if_neg (by omega))).trans (hbeyond i hi)⟩
    · cases hresult
      rw [not_not.1 hback] at hsorted
      exact ⟨hsorted, hbeyond⟩

/-- Whatever the comparator answers, and whatever else it does, the elements that are present are written back in some
order, and after them there are only holes; in a typed array they are, if the comparator does not write to it.  With
the comparator of a total preorder they are stably sorted.  The sorts return if the comparator always does. -/
theorem mergeSort_sortsStably (le : α → α → Bool) :
    (∀ (comparefn : Comparator α (ArrayLike α × σ)) (len : ℕ) (array : ArrayLike α) (world : σ),
      ((∀ x y w, comparefn x y w ≠ none) → ∃ result, mergeSort comparefn len (array, world) = some result) ∧
        ∀ array' world', mergeSort comparefn len (array, world) = some (array', world') →
          ∃ sorted, Rearranges le (Answers comparefn le) (array.present len) sorted ∧
            ∀ i < len, array'.own i = sorted[i]?) ∧
    ∀ (comparefn : Comparator α ((ℕ → α) × σ)) (len : ℕ) (array : ℕ → α) (world : σ),
      ((∀ x y w, comparefn x y w ≠ none) → ∃ result, mergeSortTypedArray comparefn len (array, world) = some result) ∧
        (KeepsArray comparefn → ∀ array' world',
          mergeSortTypedArray comparefn len (array, world) = some (array', world') →
            Rearranges le (Answers comparefn le) (slice array 0 len) (slice array' 0 len) ∧
              ∀ i, len ≤ i → array' i = array i) :=
  ⟨fun _ len array world => ⟨fun hreturns => mergeSort_isSome hreturns len (array, world),
      fun _ _ h => mergeSort_spec le h⟩,
    fun _ len array world => ⟨fun hreturns => mergeSortTypedArray_isSome hreturns len (array, world),
      fun hkeeps _ _ h => mergeSortTypedArray_spec hkeeps le h⟩⟩

/-- Numbers are compared by their tens. -/
def compareTens {S : Type*} : Comparator ℕ S := fun x y w => some ((x / 10 : ℕ) - (y / 10 : ℕ), w)

lemma answers_compareTens {S : Type*} : Answers (compareTens : Comparator ℕ S) fun x y => decide (x / 10 ≤ y / 10) := by
  refine ⟨⟨fun x y => ?_, fun x y z hxy hyz => ?_⟩, fun x y w order w' h => ?_⟩
  · exact (le_total (x / 10) (y / 10)).imp decide_eq_true decide_eq_true
  · exact decide_eq_true ((of_decide_eq_true hxy).trans (of_decide_eq_true hyz))
  · cases h
    rw [decide_eq_true_iff]
    omega

/-- A hole is moved to the end, and numbers with the same tens stay in their order. -/
theorem mergeSort_sortsStably_tens : ∃ sorted : List ℕ,
    Sorted (fun x y => decide (x / 10 ≤ y / 10)) sorted ∧ sorted.Perm [21, 13, 25, 11] ∧
      mergeSort compareTens 5 (⟨fun i => [some 21, none, some 13, some 25, some 11].getD i none, fun _ => none⟩, ()) ≠
        none := by
  have hsorts := (mergeSort_sortsStably fun x y => decide (x / 10 ≤ y / 10)).1 compareTens 5
    ⟨fun i => [some 21, none, some 13, some 25, some 11].getD i none, fun _ => none⟩ ()
  obtain ⟨⟨array', world'⟩, hresult⟩ := hsorts.1 fun _ _ _ => some_ne_none _
  obtain ⟨sorted, hsorted, -⟩ := hsorts.2 array' world' hresult
  exact ⟨sorted, hsorted.sorted answers_compareTens, hsorted.perm, by rw [hresult]; exact some_ne_none _⟩

/-- A comparator that writes to the typed array that is sorted: its first element is lost. -/
theorem mergeSortTypedArray_overwritten :
    ¬ ∀ (comparefn : Comparator ℕ ((ℕ → ℕ) × Unit)) (len : ℕ) (array array' : ℕ → ℕ) (world' : Unit),
      mergeSortTypedArray comparefn len (array, ()) = some (array', world') →
        (slice array' 0 len).Perm (slice array 0 len) := by
  intro hclaim
  have hsort : (mergeSortTypedArray (fun _ _ w => some (0, Function.update w.1 0 9, w.2)) 2
      (fun i => i + 1, ())).map (fun result => slice result.1 0 2) = some [9, 2] := by decide +kernel
  obtain ⟨⟨array', world'⟩, hresult, hslice⟩ := map_eq_some_iff.1 hsort
  have hperm := hclaim _ 2 _ array' world' hresult
  rw [hslice] at hperm
  exact absurd hperm (by decide)

end SpiderMonkey.Sorting
