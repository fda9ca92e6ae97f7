import Mathlib.Data.List.TakeWhile
import Mathlib.Tactic

/-!
# Branch deadlines

`BranchDeadlineSet`: the offsets that pending short-range branches can reach, one sorted vector for each range, with
the earliest of all precomputed.
-/

namespace SpiderMonkey

open List Function

variable {numRanges : ℕ}

/-- `earliest` is with the range that owns it. -/
structure BranchDeadlineSet (numRanges : ℕ) where
  vectorForRange : Fin numRanges → List ℕ
  earliest : Option (ℕ × Fin numRanges)

namespace BranchDeadlineSet

def initial : BranchDeadlineSet numRanges := ⟨fun _ => [], none⟩

variable (set : BranchDeadlineSet numRanges)

def empty : Bool := set.earliest.isNone

def size : ℕ := ∑ r, (set.vectorForRange r).length

def maxRangeSize : ℕ := Finset.univ.sup fun r => (set.vectorForRange r).length

variable (r : Fin numRanges)

def setVector (vec : List ℕ) : BranchDeadlineSet numRanges :=
  { set with vectorForRange := Function.update set.vectorForRange r vec }

/-- A vector is looked at when the earliest deadline is recomputed. -/
def earlier (acc : Option (ℕ × Fin numRanges)) (r : Fin numRanges) : List ℕ → Option (ℕ × Fin numRanges)
  | [] => acc
  | first :: _ => match acc with
    | none => some (first, r)
    | some (earliest, owner) => if first < earliest then some (first, r) else some (earliest, owner)

def recomputeEarliest : BranchDeadlineSet numRanges :=
  { set with earliest := (List.finRange numRanges).foldl (fun acc r => earlier acc r (set.vectorForRange r)) none }

variable (deadline : ℕ)

def updateEarliest (set : BranchDeadlineSet numRanges) : BranchDeadlineSet numRanges :=
  match set.earliest with
  | none => { set with earliest := some (deadline, r) }
  | some (earliest, _) => if deadline < earliest then { set with earliest := some (deadline, r) } else set

/-- `std::lower_bound`, as an index. -/
def lowerBound (vec : List ℕ) (deadline : ℕ) : ℕ := (vec.takeWhile (· < deadline)).length

/-- Without a result the deadline was in the vector, which is asserted not to be. -/
def addDeadlineSlow : Option (BranchDeadlineSet numRanges) :=
  let vec := set.vectorForRange r
  let position := lowerBound vec deadline
  if vec[position]? = some deadline then none
  else (set.setVector r (vec.take position ++ deadline :: vec.drop position)).updateEarliest r deadline

def addDeadline : Option (BranchDeadlineSet numRanges) :=
  let vec := set.vectorForRange r
  match vec.getLast? with
  | none => (set.setVector r [deadline]).updateEarliest r deadline
  | some back =>
    if back < deadline then set.setVector r (vec ++ [deadline])
    else set.addDeadlineSlow r deadline

/-- After a deadline is removed. -/
def recomputeAfter (set : BranchDeadlineSet numRanges) : BranchDeadlineSet numRanges :=
  if set.earliest.map Prod.fst = some deadline then set.recomputeEarliest else set

def removeDeadline : BranchDeadlineSet numRanges :=
  let vec := set.vectorForRange r
  if vec.getLast? = none then set
  else if vec.getLast? = some deadline then (set.setVector r vec.dropLast).recomputeAfter deadline
  else
    let position := lowerBound vec deadline
    if vec[position]? = some deadline then (set.setVector r (vec.eraseIdx position)).recomputeAfter deadline else set

/-! ## What the set keeps -/

/-- The first of all deadlines, with its range. -/
def IsEarliest (vectorForRange : Fin numRanges → List ℕ) (owners : Fin numRanges → Prop) :
    Option (ℕ × Fin numRanges) → Prop
  | none => ∀ r, owners r → vectorForRange r = []
  | some (deadline, owner) =>
    owners owner ∧ deadline ∈ vectorForRange owner ∧ ∀ r, owners r → ∀ d ∈ vectorForRange r, deadline ≤ d

structure Valid (set : BranchDeadlineSet numRanges) : Prop where
  sorted : ∀ r, (set.vectorForRange r).Pairwise (· < ·)
  earliest : IsEarliest set.vectorForRange (fun _ => True) set.earliest

variable {set set' : BranchDeadlineSet numRanges} {r owner : Fin numRanges} {deadline first d : ℕ} {vec rest : List ℕ}

@[simp] lemma setVector_self : (set.setVector r vec).vectorForRange r = vec := update_self ..

@[simp] lemma setVector_of_ne {r' : Fin numRanges} (h : r' ≠ r) :
    (set.setVector r vec).vectorForRange r' = set.vectorForRange r' := update_of_ne h ..

@[simp] lemma setVector_earliest : (set.setVector r vec).earliest = set.earliest := rfl

@[simp] lemma updateEarliest_vectorForRange : (set.updateEarliest r deadline).vectorForRange = set.vectorForRange := by
  unfold updateEarliest
  split
  · rfl
  · split_ifs <;> rfl

@[simp] lemma recomputeAfter_vectorForRange : (set.recomputeAfter deadline).vectorForRange = set.vectorForRange := by
  unfold recomputeAfter
  split_ifs <;> rfl

lemma valid_initial : (initial : BranchDeadlineSet numRanges).Valid := ⟨fun _ => List.Pairwise.nil, fun _ _ => rfl⟩

lemma not_mem_of_none (h : IsEarliest set.vectorForRange (fun _ => True) none) : d ∉ set.vectorForRange r := by
  rw [h r trivial]
  simp

/-! ### The earliest deadline -/

lemma isEarliest_earlier {vectorForRange : Fin numRanges → List ℕ} {owners : Fin numRanges → Prop}
    {acc : Option (ℕ × Fin numRanges)} (hsorted : (vectorForRange r).Pairwise (· < ·))
    (h : IsEarliest vectorForRange owners acc) :
    IsEarliest vectorForRange (fun r' => owners r' ∨ r' = r) (earlier acc r (vectorForRange r)) := by
  cases hvec : vectorForRange r with
  | nil =>
    cases acc with
    | none =>
      rintro r' (hr | rfl)
      · exact h r' hr
      · exact hvec
    | some acc =>
      obtain ⟨howner, hmem, hle⟩ := h
      refine ⟨.inl howner, hmem, ?_⟩
      rintro r' (hr | rfl) d hd
      · exact hle r' hr d hd
      · simp [hvec] at hd
  | cons first rest =>
    have hfirst : ∀ d ∈ vectorForRange r, first ≤ d := by
      intro d hd
      rw [hvec] at hd hsorted
      obtain rfl | hd := mem_cons.1 hd
      · exact le_rfl
      · exact ((pairwise_cons.1 hsorted).1 d hd).le
    have hmem : first ∈ vectorForRange r := by simp [hvec]
    cases acc with
    | none =>
      refine ⟨.inr rfl, hmem, ?_⟩
      rintro r' (hr | rfl) d hd
      · simp [h r' hr] at hd
      · exact hfirst d hd
    | some acc =>
      obtain ⟨howner, hmem', hle⟩ := h
      rw [earlier]
      split_ifs with hlt
      · refine ⟨.inr rfl, hmem, ?_⟩
        rintro r' (hr | rfl) d hd
        · exact hlt.le.trans (hle r' hr d hd)
        · exact hfirst d hd
      · refine ⟨.inl howner, hmem', ?_⟩
        rintro r' (hr | rfl) d hd
        · exact hle r' hr d hd
        · exact (not_lt.1 hlt).trans (hfirst d hd)

lemma isEarliest_foldl {vectorForRange : Fin numRanges → List ℕ} (hsorted : ∀ r, (vectorForRange r).Pairwise (· < ·))
    (rs : List (Fin numRanges)) {owners : Fin numRanges → Prop} {acc : Option (ℕ × Fin numRanges)}
    (h : IsEarliest vectorForRange owners acc) :
    IsEarliest vectorForRange (fun r => owners r ∨ r ∈ rs)
      (rs.foldl (fun acc r => earlier acc r (vectorForRange r)) acc) := by
  induction rs generalizing owners acc with
  | nil => simpa using h
  | cons r rs ih => simpa [or_assoc] using ih (isEarliest_earlier (hsorted r) h)

lemma valid_recomputeEarliest (hsorted : ∀ r, (set.vectorForRange r).Pairwise (· < ·)) :
    set.recomputeEarliest.Valid := by
  refine ⟨hsorted, ?_⟩
  have hnone : IsEarliest set.vectorForRange (fun _ => False) none := fun _ h => h.elim
  have hfold := isEarliest_foldl hsorted (List.finRange numRanges) hnone
  simpa [recomputeEarliest] using hfold

lemma Valid.insert (h : set.Valid) (hsorted : vec.Pairwise (· < ·))
    (hvec : ∀ d, d ∈ vec ↔ d = deadline ∨ d ∈ set.vectorForRange r) :
    ((set.setVector r vec).updateEarliest r deadline).Valid := by
  have hmem : ∀ r' d, d ∈ (set.setVector r vec).vectorForRange r' ↔
      r' = r ∧ d = deadline ∨ d ∈ set.vectorForRange r' := by
    intro r' d
    obtain rfl | hne := eq_or_ne r' r
    · simp [hvec]
    · simp [hne]
  refine ⟨fun r' => ?_, ?_⟩
  · rw [updateEarliest_vectorForRange]
    obtain rfl | hne := eq_or_ne r' r
    · simpa using hsorted
    · simpa [hne] using h.sorted r'
  · have hearliest := h.earliest
    rw [updateEarliest_vectorForRange, updateEarliest, setVector_earliest]
    cases hset : set.earliest with
    | none =>
      rw [hset] at hearliest
      refine ⟨trivial, (hmem r deadline).2 (.inl ⟨rfl, rfl⟩), fun r' _ d hd => ?_⟩
      obtain ⟨-, rfl⟩ | hd := (hmem r' d).1 hd
      · exact le_rfl
      · exact absurd hd (not_mem_of_none hearliest)
    | some acc =>
      obtain ⟨earliest, owner⟩ := acc
      rw [hset] at hearliest
      obtain ⟨-, howner, hle⟩ := hearliest
      dsimp only
      split_ifs with hlt
      · refine ⟨trivial, (hmem r deadline).2 (.inl ⟨rfl, rfl⟩), fun r' _ d hd => ?_⟩
        obtain ⟨-, rfl⟩ | hd := (hmem r' d).1 hd
        · exact le_rfl
        · exact hlt.le.trans (hle r' trivial d hd)
      · rw [setVector_earliest, hset]
        refine ⟨trivial, (hmem owner earliest).2 (.inr howner), fun r' _ d hd => ?_⟩
        obtain ⟨-, rfl⟩ | hd := (hmem r' d).1 hd
        · omega
        · exact hle r' trivial d hd

/-! ### Sorted vectors -/

lemma take_lowerBound : vec.take (lowerBound vec d) = vec.takeWhile (· < d) :=
  (prefix_iff_eq_take.1 (List.takeWhile_prefix _)).symm

lemma drop_lowerBound : vec.drop (lowerBound vec d) = vec.dropWhile (· < d) := by
  have hsplit := takeWhile_append_dropWhile (p := (decide <| · < d)) (l := vec)
  calc vec.drop (lowerBound vec d)
      = (vec.takeWhile (· < d) ++ vec.dropWhile (· < d)).drop (vec.takeWhile (· < d)).length := by rw [hsplit, lowerBound]
    _ = vec.dropWhile (· < d) := drop_left

lemma getElem?_lowerBound : vec[lowerBound vec d]? = (vec.dropWhile (· < d)).head? := by
  rw [← drop_lowerBound, head?_drop]

lemma lt_of_mem_takeWhile {x : ℕ} (h : x ∈ vec.takeWhile (· < d)) : x < d := by
  simpa using mem_takeWhile_imp h

lemma le_of_mem_dropWhile {x : ℕ} (hsorted : vec.Pairwise (· < ·)) (h : x ∈ vec.dropWhile (· < d)) : d ≤ x := by
  induction vec with
  | nil => simp at h
  | cons first rest ih =>
    obtain ⟨hfirst, hrest⟩ := pairwise_cons.1 hsorted
    by_cases hlt : first < d
    · rw [dropWhile_cons_of_pos (by simpa using hlt)] at h
      exact ih hrest h
    · rw [dropWhile_cons_of_neg (by simpa using hlt)] at h
      obtain rfl | hx := mem_cons.1 h
      · omega
      · exact (not_lt.1 hlt).trans (hfirst x hx).le

lemma mem_of_mem_dropWhile {x : ℕ} (h : x ∈ vec.dropWhile (· < d)) : x ∈ vec := (dropWhile_sublist _).mem h

lemma getElem?_lowerBound_iff (hsorted : vec.Pairwise (· < ·)) : vec[lowerBound vec d]? = some d ↔ d ∈ vec := by
  rw [getElem?_lowerBound]
  refine ⟨fun h => mem_of_mem_dropWhile (mem_of_head? h), fun h => ?_⟩
  have hmem : d ∈ vec.dropWhile (· < d) := by
    rw [← takeWhile_append_dropWhile (p := (decide <| · < d)) (l := vec)] at h
    exact (mem_append.1 h).resolve_left fun hlt => lt_irrefl d (lt_of_mem_takeWhile hlt)
  have hsorted' : (vec.dropWhile (· < d)).Pairwise (· < ·) := hsorted.sublist (dropWhile_sublist _)
  cases hdrop : vec.dropWhile (· < d) with
  | nil => simp [hdrop] at hmem
  | cons first rest =>
    have hle : d ≤ first := le_of_mem_dropWhile hsorted (by rw [hdrop]; exact mem_cons_self)
    rw [hdrop] at hmem hsorted'
    obtain rfl | hrest := mem_cons.1 hmem
    · rfl
    · exact absurd ((pairwise_cons.1 hsorted').1 d hrest) (not_lt.2 hle)

lemma sorted_append_deadline {before after : List ℕ} (hbefore : before.Pairwise (· < ·)) (hafter : after.Pairwise (· < ·))
    (hlt : ∀ x ∈ before, x < d) (hgt : ∀ x ∈ after, d < x) : (before ++ d :: after).Pairwise (· < ·) := by
  refine pairwise_append.2 ⟨hbefore, pairwise_cons.2 ⟨hgt, hafter⟩, fun x hx y hy => ?_⟩
  obtain rfl | hy := mem_cons.1 hy
  · exact hlt x hx
  · exact (hlt x hx).trans (hgt y hy)

/-! ### Adding and removing -/

lemma Valid.addDeadlineSlow (h : set.Valid) (hadd : set.addDeadlineSlow r deadline = some set') : set'.Valid := by
  unfold BranchDeadlineSet.addDeadlineSlow at hadd
  dsimp only at hadd
  split_ifs at hadd with hdup
  rw [← Option.some.inj hadd, take_lowerBound, drop_lowerBound]
  have hsorted := h.sorted r
  refine h.insert (sorted_append_deadline (hsorted.sublist (takeWhile_sublist _))
    (hsorted.sublist (dropWhile_sublist _)) (fun x hx => lt_of_mem_takeWhile hx) fun x hx => ?_) fun d => ?_
  · refine lt_of_le_of_ne (le_of_mem_dropWhile hsorted hx) fun heq => hdup ?_
    rw [getElem?_lowerBound_iff hsorted, heq]
    exact mem_of_mem_dropWhile hx
  · conv_rhs => rw [← takeWhile_append_dropWhile (p := (decide <| · < deadline)) (l := set.vectorForRange r)]
    simp only [mem_append, mem_cons]
    tauto

lemma Valid.addDeadline (h : set.Valid) (hadd : set.addDeadline r deadline = some set') : set'.Valid := by
  unfold BranchDeadlineSet.addDeadline at hadd
  dsimp only at hadd
  cases hback : (set.vectorForRange r).getLast? with
  | none =>
    rw [hback] at hadd
    rw [← Option.some.inj hadd]
    refine h.insert (pairwise_singleton _ _) fun d => ?_
    simp [getLast?_eq_none_iff.1 hback]
  | some back =>
    rw [hback] at hadd
    dsimp only at hadd
    split_ifs at hadd with hlt
    · have hmem : back ∈ set.vectorForRange r := mem_of_getLast? hback
      have hsorted := h.sorted r
      have hall : ∀ x ∈ set.vectorForRange r, x < deadline := by
        intro x hx
        obtain ⟨init, hinit⟩ := getLast?_eq_some_iff.1 hback
        rw [hinit] at hx hsorted
        obtain hx | hx := mem_append.1 hx
        · exact ((pairwise_append.1 hsorted).2.2 x hx back (by simp)).trans hlt
        · exact mem_singleton.1 hx ▸ hlt
      have hvalid : ((set.setVector r (set.vectorForRange r ++ [deadline])).updateEarliest r deadline).Valid :=
        h.insert (sorted_append_deadline hsorted List.Pairwise.nil hall (by simp)) fun d => by simp [or_comm]
      -- the earliest deadline is not later than the last one of this vector
      have hsame : (set.setVector r (set.vectorForRange r ++ [deadline])).updateEarliest r deadline =
          set.setVector r (set.vectorForRange r ++ [deadline]) := by
        have hearliest := h.earliest
        rw [updateEarliest, setVector_earliest]
        cases hset : set.earliest with
        | none => exact absurd hmem (not_mem_of_none (hset ▸ hearliest))
        | some acc =>
          obtain ⟨earliest, owner⟩ := acc
          rw [hset] at hearliest
          exact if_neg (not_lt.2 ((hearliest.2.2 r trivial back hmem).trans hlt.le))
      rw [← Option.some.inj hadd]
      rwa [hsame] at hvalid
    · exact h.addDeadlineSlow hadd

lemma filter_eq_self_of_forall_ne (h : ∀ x ∈ vec, x ≠ deadline) : vec.filter (· ≠ deadline) = vec :=
  filter_eq_self.2 (by simpa using h)

lemma Valid.removeDeadline_vectorForRange (h : set.Valid) : (set.removeDeadline r deadline).vectorForRange =
    Function.update set.vectorForRange r ((set.vectorForRange r).filter (· ≠ deadline)) := by
  have hsorted := h.sorted r
  unfold removeDeadline
  dsimp only
  split_ifs with hnil hback hfound
  · have hvec := getLast?_eq_none_iff.1 hnil
    rw [hvec, filter_nil, ← hvec, update_eq_self]
  · obtain ⟨init, hinit⟩ := getLast?_eq_some_iff.1 hback
    have hlt : ∀ x ∈ init, x ≠ deadline := fun x hx =>
      ((pairwise_append.1 (hinit ▸ hsorted)).2.2 x hx deadline (by simp)).ne
    rw [recomputeAfter_vectorForRange, setVector, hinit, dropLast_concat, filter_append,
      filter_eq_self_of_forall_ne hlt]
    simp
  · have hvec := takeWhile_append_dropWhile (p := (decide <| · < deadline)) (l := set.vectorForRange r)
    rw [getElem?_lowerBound] at hfound
    obtain ⟨after, hafter⟩ := head?_eq_some_iff.1 hfound
    have hafter' : (set.vectorForRange r).drop (lowerBound (set.vectorForRange r) deadline + 1) = after := by
      rw [← drop_drop, drop_lowerBound, hafter]
      rfl
    have hgt : ∀ x ∈ after, x ≠ deadline := fun x hx =>
      ((pairwise_cons.1 (hafter ▸ hsorted.sublist (dropWhile_sublist _))).1 x hx).ne'
    have hlt : ∀ x ∈ (set.vectorForRange r).takeWhile (· < deadline), x ≠ deadline := fun x hx =>
      (lt_of_mem_takeWhile hx).ne
    rw [recomputeAfter_vectorForRange, setVector, eraseIdx_eq_take_drop_succ, take_lowerBound, hafter']
    conv_rhs => rw [← hvec, hafter, filter_append, filter_eq_self_of_forall_ne hlt, filter_cons_of_neg (by simp),
      filter_eq_self_of_forall_ne hgt]
  · rw [getElem?_lowerBound_iff hsorted] at hfound
    have hne : ∀ x ∈ set.vectorForRange r, x ≠ deadline := by
      rintro x hx rfl
      exact hfound hx
    rw [filter_eq_self_of_forall_ne hne, update_eq_self]

/-- The earliest deadline is recomputed when it is removed; another one stays the earliest. -/
lemma Valid.recomputeAfter (h : set.Valid)
    (hvec : vec = (set.vectorForRange r).filter (· ≠ deadline)) : ((set.setVector r vec).recomputeAfter deadline).Valid := by
  have hmem : ∀ r' d, d ∈ (set.setVector r vec).vectorForRange r' → d ∈ set.vectorForRange r' := by
    intro r' d hd
    obtain rfl | hne := eq_or_ne r' r
    · rw [setVector_self, hvec] at hd
      exact mem_of_mem_filter hd
    · rwa [setVector_of_ne hne] at hd
  have hsorted : ∀ r', ((set.setVector r vec).vectorForRange r').Pairwise (· < ·) := by
    intro r'
    obtain rfl | hne := eq_or_ne r' r
    · rw [setVector_self, hvec]
      exact (h.sorted r').sublist filter_sublist
    · rw [setVector_of_ne hne]
      exact h.sorted r'
  unfold BranchDeadlineSet.recomputeAfter
  split_ifs with heq
  · exact valid_recomputeEarliest hsorted
  · refine ⟨hsorted, ?_⟩
    have hearliest := h.earliest
    rw [setVector_earliest] at heq ⊢
    cases hset : set.earliest with
    | none =>
      rw [hset] at hearliest
      exact fun r' _ => eq_nil_iff_forall_not_mem.2 fun d hd => not_mem_of_none hearliest (hmem r' d hd)
    | some acc =>
      obtain ⟨earliest, owner⟩ := acc
      rw [hset] at hearliest heq
      obtain ⟨-, howner, hle⟩ := hearliest
      refine ⟨trivial, ?_, fun r' _ d hd => hle r' trivial d (hmem r' d hd)⟩
      obtain rfl | hne := eq_or_ne owner r
      · rw [setVector_self, hvec]
        exact mem_filter.2 ⟨howner, by simpa using heq⟩
      · rwa [setVector_of_ne hne]

lemma Valid.removeDeadline (h : set.Valid) : (set.removeDeadline r deadline).Valid := by
  have hvector : (set.removeDeadline r deadline).vectorForRange r = (set.vectorForRange r).filter (· ≠ deadline) := by
    rw [h.removeDeadline_vectorForRange, update_self]
  unfold BranchDeadlineSet.removeDeadline at hvector ⊢
  dsimp only at hvector ⊢
  split_ifs at hvector ⊢ with hnil hback hfound
  · exact h
  · exact h.recomputeAfter (by simpa using hvector)
  · exact h.recomputeAfter (by simpa using hvector)
  · exact h

end BranchDeadlineSet

end SpiderMonkey
