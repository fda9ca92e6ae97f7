import SpiderMonkey.Jit.AssemblerBuffer

/-!
# Space after a pool is finished

What `finishPool` leaves of the pending branches, and when there is space for the instructions it is called for.
-/

namespace SpiderMonkey.AssemblerBuffer

open BranchDeadlineSet List Function Except

variable {numRanges : ℕ} {cfg : Config} {set set' : BranchDeadlineSet numRanges} {s s' : AssemblerBuffer numRanges}
  {reservedBytes position deadline d n p fuel : ℕ} {owner r : Fin numRanges} {rest : List ℕ}

/-! ## Counting deadlines -/

/-- The number of deadlines before an offset. -/
def below (set : BranchDeadlineSet numRanges) (d : ℕ) : ℕ := ∑ r, ((set.vectorForRange r).filter (· < d)).length

/-- The deadlines from an offset on. -/
def startingAt (set : BranchDeadlineSet numRanges) (d : ℕ) : BranchDeadlineSet numRanges :=
  { set with vectorForRange := fun r => (set.vectorForRange r).filter (d ≤ ·) }

lemma sum_update {vector : Fin numRanges → List ℕ} (howner : vector owner = deadline :: rest) (f : List ℕ → ℕ) {k : ℕ}
    (hf : f (deadline :: rest) = f rest + k) : ∑ r, f (vector r) = ∑ r, f (Function.update vector owner rest r) + k := by
  have hothers : ∑ r ∈ Finset.univ.erase owner, f (Function.update vector owner rest r) =
      ∑ r ∈ Finset.univ.erase owner, f (vector r) :=
    Finset.sum_congr rfl fun r hr => by rw [update_of_ne (Finset.ne_of_mem_erase hr)]
  rw [← Finset.add_sum_erase _ _ (Finset.mem_univ owner), ← Finset.add_sum_erase _ _ (Finset.mem_univ owner), hothers,
    update_self, howner, hf]
  ring

lemma expires_mono {position' : ℕ} (hle : position ≤ position') (h : expires cfg reservedBytes position d) :
    expires cfg reservedBytes position' d := by
  unfold expires at h ⊢
  omega

lemma not_expires_of_le (hle : deadline ≤ d) (h : ¬expires cfg reservedBytes position deadline) :
    ¬expires cfg reservedBytes position d := by
  unfold expires at h ⊢
  omega

/-! ## The veneers -/

lemma exists_vector_eq_cons (h : set.Valid) (hearliest : set.earliest = some (deadline, owner)) :
    ∃ rest, set.vectorForRange owner = deadline :: rest ∧
      (set.removeDeadline owner deadline).vectorForRange = Function.update set.vectorForRange owner rest := by
  have hvalid := h.earliest
  rw [hearliest] at hvalid
  obtain ⟨-, hmem, hle⟩ := hvalid
  have hsorted := h.sorted owner
  cases hvec : set.vectorForRange owner with
  | nil => simp [hvec] at hmem
  | cons first rest =>
    have hfirst : deadline ≤ first := hle owner trivial first (by simp [hvec])
    rw [hvec] at hmem hsorted
    obtain ⟨hlt, -⟩ := pairwise_cons.1 hsorted
    obtain rfl : deadline = first := by
      obtain rfl | hrest := mem_cons.1 hmem
      · rfl
      · exact absurd (hlt deadline hrest) (not_lt.2 hfirst)
    refine ⟨rest, rfl, ?_⟩
    rw [h.removeDeadline_vectorForRange, hvec, filter_cons_of_neg (by simp),
      filter_eq_self_of_forall_ne fun x hx => (hlt x hx).ne']

/-- The branches that get veneers are those that expire at the end, each of them after the veneers of those before. -/
structure Flushed (cfg : Config) (reservedBytes position : ℕ) (set : BranchDeadlineSet numRanges) (position' : ℕ)
    (set' : BranchDeadlineSet numRanges) : Prop where
  valid : set'.Valid
  vector : ∀ r, set'.vectorForRange r = (set.vectorForRange r).filter (¬expires cfg reservedBytes position' ·)
  position_eq : position' = position +
    (∑ r, ((set.vectorForRange r).filter (expires cfg reservedBytes position' ·)).length) * (cfg.guardSize * cfg.instSize)
  expired : ∀ r, ∀ d ∈ set.vectorForRange r, expires cfg reservedBytes position' d →
    expires cfg reservedBytes (position + below set d * (cfg.guardSize * cfg.instSize)) d

lemma flushed_self (h : set.Valid) (hnone : ∀ r, ∀ d ∈ set.vectorForRange r, ¬expires cfg reservedBytes position d) :
    Flushed cfg reservedBytes position set position set := by
  have hvector : ∀ r, (set.vectorForRange r).filter (expires cfg reservedBytes position ·) = [] := fun r =>
    filter_eq_nil_iff.2 (by simpa using hnone r)
  refine ⟨h, fun r => ?_, ?_, fun r d hd hexpires => absurd hexpires (hnone r d hd)⟩
  · exact (filter_eq_self.2 (by simpa using hnone r)).symm
  · simp [hvector]

lemma not_expires_of_earliest (h : set.Valid)
    (hnot : hasExpirableShortRangeBranches cfg reservedBytes position set = false) :
    ∀ r, ∀ d ∈ set.vectorForRange r, ¬expires cfg reservedBytes position d := by
  intro r d hd
  have hvalid := h.earliest
  unfold hasExpirableShortRangeBranches at hnot
  cases hearliest : set.earliest with
  | none =>
    rw [hearliest] at hvalid
    exact absurd hd (not_mem_of_none hvalid)
  | some acc =>
    obtain ⟨deadline, owner⟩ := acc
    rw [hearliest] at hvalid hnot
    exact not_expires_of_le (hvalid.2.2 r trivial d hd) (by simpa using hnot)

lemma Flushed.veneer {position' : ℕ} (h : set.Valid) (hearliest : set.earliest = some (deadline, owner))
    (hexpires : expires cfg reservedBytes position deadline) (hle : position + cfg.guardSize * cfg.instSize ≤ position')
    (hflushed : Flushed cfg reservedBytes (position + cfg.guardSize * cfg.instSize) (set.removeDeadline owner deadline)
      position' set') : Flushed cfg reservedBytes position set position' set' := by
  obtain ⟨rest, hvec, hremove⟩ := exists_vector_eq_cons h hearliest
  have hfirst := h.earliest
  rw [hearliest] at hfirst
  have hexpires' := expires_mono (Nat.le_of_add_right_le hle) hexpires
  refine ⟨hflushed.valid, fun r => ?_, ?_, fun r d hd hd' => ?_⟩
  · rw [hflushed.vector, hremove]
    obtain rfl | hne := eq_or_ne r owner
    · rw [update_self, hvec, filter_cons_of_neg (by simpa using hexpires')]
    · rw [update_of_ne hne]
  · have hsum := sum_update hvec (fun vec => (vec.filter (expires cfg reservedBytes position' ·)).length) (k := 1)
      (by simp [hexpires'])
    have hposition := hflushed.position_eq
    rw [hremove] at hposition
    rw [hsum, Nat.add_mul, Nat.one_mul]
    linarith
  · have hle : deadline ≤ d := hfirst.2.2 r trivial d hd
    obtain rfl | hlt := hle.eq_or_lt
    · exact expires_mono (Nat.le_add_right _ _) hexpires
    · have hmem : d ∈ (set.removeDeadline owner deadline).vectorForRange r := by
        rw [hremove]
        obtain rfl | hne := eq_or_ne r owner
        · rw [hvec] at hd
          rw [update_self]
          exact (mem_cons.1 hd).resolve_left hlt.ne'
        · rwa [update_of_ne hne]
      have hbelow : below set d = below (set.removeDeadline owner deadline) d + 1 := by
        rw [below, below, hremove]
        exact sum_update hvec (fun vec => (vec.filter (· < d)).length) (by simp [hlt])
      have hlater := hflushed.expired r d hmem hd'
      have hsame : position + below set d * (cfg.guardSize * cfg.instSize) = position + cfg.guardSize * cfg.instSize +
          below (set.removeDeadline owner deadline) d * (cfg.guardSize * cfg.instSize) := by
        rw [hbelow]
        ring
      rwa [hsame]

lemma veneers_flushed (h : set.Valid) (hfuel : set.size < fuel) : ∃ position' set',
    veneers cfg reservedBytes fuel position set = .ok (position', set') ∧ position ≤ position' ∧
      Flushed cfg reservedBytes position set position' set' := by
  induction fuel generalizing position set with
  | zero => exact absurd hfuel (Nat.not_lt_zero _)
  | succ fuel ih =>
    rw [veneers]
    cases hearliest : set.earliest with
    | none =>
      have hnot : hasExpirableShortRangeBranches cfg reservedBytes position set = false := by
        simp [hasExpirableShortRangeBranches, hearliest]
      exact ⟨position, set, rfl, le_rfl, flushed_self h (not_expires_of_earliest h hnot)⟩
    | some acc =>
      obtain ⟨deadline, owner⟩ := acc
      dsimp only
      split_ifs with hexpires
      · obtain ⟨rest, hvec, hremove⟩ := exists_vector_eq_cons h hearliest
        have hsize : set.size = (set.removeDeadline owner deadline).size + 1 := by
          rw [size, size, hremove]
          exact sum_update hvec List.length (by simp)
        have hvalid : (set.removeDeadline owner deadline).Valid := h.removeDeadline
        obtain ⟨position', set', hveneers, hle, hflushed⟩ :=
          @ih _ (position + cfg.guardSize * cfg.instSize) hvalid (by omega)
        exact ⟨position', set', hveneers, (Nat.le_add_right _ _).trans hle, hflushed.veneer h hearliest hexpires hle⟩
      · have hnot : hasExpirableShortRangeBranches cfg reservedBytes position set = false := by
          simpa [hasExpirableShortRangeBranches, hearliest] using hexpires
        exact ⟨position, set, rfl, le_rfl, flushed_self h (not_expires_of_earliest h hnot)⟩

/-! ## The pool -/

/-- Where the veneers begin when a pool is finished for some bytes. -/
def flushBase (cfg : Config) (reservedBytes : ℕ) (s : AssemblerBuffer numRanges) : ℕ :=
  if isPoolEmptyFor cfg reservedBytes s then s.nextOffset else s.afterPool cfg

lemma finishPool_flushed (h : s.branchDeadlines.Valid) (hplace : s.canNotPlacePool = false) :
    ∃ s', finishPool cfg n s = .ok s' ∧ s'.pool.numEntries = 0 ∧ (s'.pool = Pool.initial ∨ s' = s) ∧
      Flushed cfg (max n ShortRangeBranchHysteresis) (flushBase cfg (max n ShortRangeBranchHysteresis) s)
        s.branchDeadlines s'.nextOffset s'.branchDeadlines := by
  unfold finishPool flushBase
  dsimp only
  rw [hplace]
  split_ifs with hempty hfalse
  · have hparts := hempty
    rw [isPoolEmptyFor, Bool.and_eq_true, decide_eq_true_iff, Bool.not_eq_true'] at hparts
    exact ⟨s, rfl, hparts.1, .inr rfl, flushed_self h (not_expires_of_earliest h hparts.2)⟩
  · simp at hfalse
  · obtain ⟨position', set', hveneers, -, hflushed⟩ :=
      @veneers_flushed _ cfg _ (max n ShortRangeBranchHysteresis) (s.afterPool cfg) _ h (Nat.lt_add_one _)
    rw [hveneers]
    exact ⟨_, rfl, rfl, .inl rfl, hflushed⟩

/-! ## When there is space -/

/-- Where a branch's veneer would begin. -/
def veneerPosition (cfg : Config) (reservedBytes : ℕ) (s : AssemblerBuffer numRanges) (deadline : ℕ) : ℕ :=
  flushBase cfg reservedBytes s + below s.branchDeadlines deadline * (cfg.guardSize * cfg.instSize)

/-- A pending branch for which there is time when the veneers of all earlier ones are placed. -/
def Survives (cfg : Config) (reservedBytes : ℕ) (s : AssemblerBuffer numRanges) (deadline : ℕ) : Prop :=
  (∃ r, deadline ∈ s.branchDeadlines.vectorForRange r) ∧
    ¬expires cfg reservedBytes (veneerPosition cfg reservedBytes s deadline) deadline

/-- The first branch without a veneer leaves room for the instructions, the guard, the header and the entries of the
next pool, and for the secondary veneers of the branches from it on. -/
def FitsAfterFlush (cfg : Config) (numInst numPoolEntries : ℕ) (s : AssemblerBuffer numRanges) : Prop :=
  let reservedBytes := max (numInst * cfg.instSize) ShortRangeBranchHysteresis
  ∀ deadline, Survives cfg reservedBytes s deadline → (∀ d, Survives cfg reservedBytes s d → deadline ≤ d) →
    veneerPosition cfg reservedBytes s deadline + (numInst + cfg.guardSize + cfg.headerSize) * cfg.instSize +
      numPoolEntries * poolAllocUnitSize + secondaryVeneers cfg (startingAt s.branchDeadlines deadline) ≤ deadline

section Flushed

variable {position' : ℕ} (h : Flushed cfg reservedBytes position set position' set')
include h

lemma Flushed.mem_iff : d ∈ set'.vectorForRange r ↔
    d ∈ set.vectorForRange r ∧ ¬expires cfg reservedBytes position' d := by
  simp [h.vector]

section

variable (hearliest : set'.earliest = some (deadline, owner))

include hearliest

lemma Flushed.expires_iff (hd : d ∈ set.vectorForRange r) : expires cfg reservedBytes position' d ↔ d < deadline := by
  have hfirst := h.valid.earliest
  rw [hearliest] at hfirst
  have hdeadline := (h.mem_iff.1 hfirst.2.1).2
  constructor
  · intro hexpires
    by_contra hge
    exact not_expires_of_le (not_lt.1 hge) hdeadline hexpires
  · intro hlt
    by_contra hnot
    exact not_lt.2 (hfirst.2.2 r trivial d (h.mem_iff.2 ⟨hd, hnot⟩)) hlt

lemma Flushed.position_eq_below : position' = position + below set deadline * (cfg.guardSize * cfg.instSize) := by
  have hcount : ∀ r, (set.vectorForRange r).filter (expires cfg reservedBytes position' ·) =
      (set.vectorForRange r).filter (· < deadline) := fun r =>
    filter_congr fun d hd => by simp [h.expires_iff hearliest hd]
  rw [below]
  simp only [← hcount]
  exact h.position_eq

lemma Flushed.secondaryVeneers_eq : secondaryVeneers cfg set' = secondaryVeneers cfg (startingAt set deadline) := by
  have hvector : set'.vectorForRange = (startingAt set deadline).vectorForRange := by
    funext r
    rw [h.vector, startingAt]
    exact filter_congr fun d hd => by simp [h.expires_iff hearliest hd]
  rw [secondaryVeneers, secondaryVeneers, size, size, maxRangeSize, maxRangeSize, hvector]

end

end Flushed

/-- After a pool is finished there is space if and only if the first branch without a veneer leaves room. -/
lemma hasSpace_iff_fits (h : Flushed cfg (max (n * cfg.instSize) ShortRangeBranchHysteresis)
      (flushBase cfg (max (n * cfg.instSize) ShortRangeBranchHysteresis) s) s.branchDeadlines s'.nextOffset s'.branchDeadlines)
    (hentries : s'.pool.numEntries = 0)
    (hfull : s'.pool.checkFull cfg (s'.nextOffset + (n + cfg.guardSize + cfg.headerSize) * cfg.instSize) = false) :
    hasSpaceForInsts cfg n p s' = true ↔ FitsAfterFlush cfg n p s := by
  have hsurvives : ∀ d, Survives cfg (max (n * cfg.instSize) ShortRangeBranchHysteresis) s d →
      ∃ r, d ∈ s'.branchDeadlines.vectorForRange r := by
    rintro d ⟨⟨r, hd⟩, hnot⟩
    exact ⟨r, h.mem_iff.2 ⟨hd, fun hexpires => hnot (h.expired r d hd hexpires)⟩⟩
  unfold hasSpaceForInsts FitsAfterFlush
  dsimp only
  rw [hfull, if_neg Bool.false_ne_true]
  cases hearliest : s'.branchDeadlines.earliest with
  | none =>
    have hnone := h.valid.earliest
    rw [hearliest] at hnone
    refine iff_of_true rfl fun d hd _ => ?_
    obtain ⟨r, hr⟩ := hsurvives d hd
    exact absurd hr (not_mem_of_none hnone)
  | some acc =>
    obtain ⟨deadline, owner⟩ := acc
    have hfirst := h.valid.earliest
    rw [hearliest] at hfirst
    have hmem := h.mem_iff.1 hfirst.2.1
    have hposition : s'.nextOffset = veneerPosition cfg (max (n * cfg.instSize) ShortRangeBranchHysteresis) s deadline :=
      h.position_eq_below hearliest
    have hsecondary := h.secondaryVeneers_eq hearliest
    have hdeadline : Survives cfg (max (n * cfg.instSize) ShortRangeBranchHysteresis) s deadline :=
      ⟨⟨owner, hmem.1⟩, hposition ▸ hmem.2⟩
    have hle : ∀ d, Survives cfg (max (n * cfg.instSize) ShortRangeBranchHysteresis) s d → deadline ≤ d := by
      intro d hd
      obtain ⟨r, hr⟩ := hsurvives d hd
      exact hfirst.2.2 r trivial d hr
    dsimp only
    rw [decide_eq_true_iff, hsecondary, Pool.getPoolSize, hentries, Nat.zero_mul, Nat.add_zero]
    rw [hposition]
    refine ⟨fun hspace d hd hmin => ?_, fun hfits => hfits deadline hdeadline hle⟩
    obtain rfl := le_antisymm (hmin deadline hdeadline) (hle d hd)
    exact hspace

/-! ## Reachable buffers -/

/-- A pool without entries has no limiting user. -/
structure Inv (s : AssemblerBuffer numRanges) : Prop where
  valid : s.branchDeadlines.Valid
  limiting : s.pool.numEntries = 0 → s.pool.limiting = none

/-- An operation keeps the invariant when it succeeds. -/
def Keeps (f : AssemblerBuffer numRanges → Except Stop (AssemblerBuffer numRanges)) : Prop :=
  ∀ s s', Inv s → f s = .ok s' → Inv s'

lemma of_bind_eq_ok {α β : Type} {x : Except Stop α} {f : α → Except Stop β} {b : β} (h : x >>= f = .ok b) :
    ∃ a, x = .ok a ∧ f a = .ok b := by
  cases x with
  | error e => simp [bind, Except.bind] at h
  | ok a => exact ⟨a, rfl, h⟩

lemma inv_initial : Inv (initial : AssemblerBuffer numRanges) := ⟨valid_initial, fun _ => rfl⟩

lemma veneers_valid {position' : ℕ} (h : set.Valid) (heq : veneers cfg reservedBytes fuel position set = .ok (position', set')) :
    set'.Valid := by
  induction fuel generalizing position set with
  | zero => simp [veneers] at heq
  | succ fuel ih =>
    rw [veneers] at heq
    cases hearliest : set.earliest with
    | none =>
      simp only [hearliest, ok.injEq, Prod.mk.injEq] at heq
      exact heq.2 ▸ h
    | some acc =>
      simp only [hearliest] at heq
      split_ifs at heq with hexpires
      · exact ih h.removeDeadline heq
      · simp only [ok.injEq, Prod.mk.injEq] at heq
        exact heq.2 ▸ h

lemma finishPool_cases (h : finishPool cfg reservedBytes s = .ok s') :
    s' = s ∨ s'.pool = Pool.initial ∧ ∃ fuel position,
      veneers cfg (max reservedBytes ShortRangeBranchHysteresis) fuel position s.branchDeadlines =
        .ok (s'.nextOffset, s'.branchDeadlines) := by
  unfold finishPool at h
  dsimp only at h
  split_ifs at h with hempty hplace
  · exact .inl (ok.inj h).symm
  · obtain ⟨⟨position, set⟩, hveneers, h⟩ := of_bind_eq_ok h
    cases h
    exact .inr ⟨rfl, _, _, hveneers⟩

lemma finishPool_valid (hs : s.branchDeadlines.Valid) (h : finishPool cfg reservedBytes s = .ok s') :
    s'.branchDeadlines.Valid := by
  obtain rfl | ⟨-, fuel, position, hveneers⟩ := finishPool_cases h
  · exact hs
  · exact veneers_valid hs hveneers

lemma keeps_finishPool : Keeps (@finishPool numRanges cfg reservedBytes) := by
  intro s s' hs h
  refine ⟨finishPool_valid hs.valid h, ?_⟩
  obtain rfl | ⟨hpool, -⟩ := finishPool_cases h
  · exact hs.limiting
  · rw [hpool]
    exact fun _ => rfl

lemma updateLimiter_branchDeadlines : (s.updateLimiter p).branchDeadlines = s.branchDeadlines := by
  unfold updateLimiter
  split_ifs <;> rfl

/-- The limiting user is set before its entry is there. -/
lemma insertEntryForwards_inv (hs : s.branchDeadlines.Valid) (hp : p = 0 → Inv s)
    (h : insertEntryForwards cfg n p fuel s = .ok s') : Inv s' := by
  induction fuel generalizing s with
  | zero => simp [insertEntryForwards] at h
  | succ fuel ih =>
    rw [insertEntryForwards] at h
    split_ifs at h with hspace
    · cases h
      refine ⟨by simpa [insertEntry, updateLimiter_branchDeadlines] using hs, fun hzero => ?_⟩
      obtain ⟨hzero, rfl⟩ := Nat.add_eq_zero_iff.1 hzero
      rw [updateLimiter, if_pos rfl] at hzero ⊢
      exact (hp rfl).limiting hzero
    · obtain ⟨s₁, hfinish, h⟩ := of_bind_eq_ok h
      refine ih (finishPool_valid (by rwa [updateLimiter_branchDeadlines]) hfinish) (fun hzero => ?_) h
      rw [updateLimiter, if_pos hzero] at hfinish
      exact keeps_finishPool s s₁ (hp hzero) hfinish

/-- Steps that do not touch the deadlines and the pool. -/
lemma Inv.congr (h : Inv s) (hdeadlines : s'.branchDeadlines = s.branchDeadlines) (hpool : s'.pool = s.pool) : Inv s' :=
  ⟨hdeadlines ▸ h.valid, hpool ▸ h.limiting⟩

lemma keeps_allocFilledEntry : Keeps (@allocFilledEntry numRanges cfg fuel n p) := by
  intro s s' hs h
  obtain ⟨s₁, hinsert, h⟩ := of_bind_eq_ok h
  cases h
  exact (insertEntryForwards_inv hs.valid (fun _ => hs) hinsert).congr rfl rfl

lemma keeps_repeatTimes {f : AssemblerBuffer numRanges → Except Stop (AssemblerBuffer numRanges)} (hf : Keeps f) (k : ℕ) :
    Keeps (repeatTimes f k) := by
  induction k with
  | zero =>
    intro s s' hs h
    exact ok.inj h ▸ hs
  | succ k ih =>
    intro s s' hs h
    obtain ⟨s₁, hfirst, h⟩ := of_bind_eq_ok h
    exact ih s₁ s' (hf s s₁ hs hfirst) h

lemma keeps_insertNopFill : Keeps (@insertNopFill numRanges cfg fuel) := by
  intro s s' hs h
  unfold insertNopFill at h
  split_ifs at h with hfill
  · obtain ⟨s₁, hrepeat, h⟩ := of_bind_eq_ok h
    cases h
    have hinhibited : Inv { s with inhibitNops := true } := hs.congr rfl rfl
    exact (keeps_repeatTimes keeps_allocFilledEntry _ _ _ hinhibited hrepeat).congr rfl rfl
  · exact ok.inj h ▸ hs

lemma keeps_allocEntry : Keeps (@allocEntry numRanges cfg fuel n p) := by
  intro s s' hs h
  unfold allocEntry at h
  split_ifs at h with hplace
  obtain ⟨s₁, hfill, h⟩ := of_bind_eq_ok h
  exact keeps_allocFilledEntry s₁ s' (keeps_insertNopFill s s₁ hs hfill) h

lemma keeps_putInt : Keeps (@putInt numRanges cfg fuel) := by
  intro s s' hs h
  unfold putInt at h
  split_ifs at h with hslow
  · exact keeps_allocEntry s s' hs h
  · exact ok.inj h ▸ hs.congr rfl rfl

lemma keeps_makeSpaceForInsts : Keeps (@makeSpaceForInsts numRanges cfg n) := by
  intro s s' hs h
  unfold makeSpaceForInsts at h
  split_ifs at h with hspace
  · exact ok.inj h ▸ hs
  · obtain ⟨s₁, hfinish, h⟩ := of_bind_eq_ok h
    split_ifs at h with hspace'
    exact ok.inj h ▸ keeps_finishPool s s₁ hs hfinish

lemma keeps_makeSpaceForFill : Keeps (@makeSpaceForFill numRanges cfg n) := by
  intro s s' hs h
  unfold makeSpaceForFill at h
  split_ifs at h with hspace
  · exact ok.inj h ▸ hs
  · exact keeps_finishPool s s' hs h

lemma keeps_fill (alignment : ℕ) : Keeps (@fill numRanges cfg alignment fuel) := by
  induction fuel with
  | zero =>
    intro s s' _ h
    simp [fill] at h
  | succ fuel ih =>
    intro s s' hs h
    rw [fill] at h
    split_ifs at h with haligned
    · exact ok.inj h ▸ hs
    · obtain ⟨s₁, hput, h⟩ := of_bind_eq_ok h
      exact ih s₁ s' (keeps_putInt s s₁ hs hput) h

lemma keeps_align (alignment : ℕ) : Keeps (@align numRanges cfg fuel alignment) := by
  intro s s' hs h
  unfold align at h
  split_ifs at h with hsmall
  obtain ⟨s₁, hfill, h⟩ := of_bind_eq_ok h
  have hs₁ := keeps_insertNopFill s s₁ hs hfill
  split_ifs at h with haligned
  · exact ok.inj h ▸ hs₁
  · obtain ⟨s₂, hspace, h⟩ := of_bind_eq_ok h
    obtain ⟨filled, hfilled, h⟩ := of_bind_eq_ok h
    have hs₂ := keeps_makeSpaceForFill s₁ s₂ hs₁ hspace
    have hinhibited : Inv { s₂ with inhibitNops := true } := hs₂.congr rfl rfl
    exact ok.inj h ▸ (keeps_fill alignment _ filled hinhibited hfilled).congr rfl rfl

lemma keeps_enterNoPool : Keeps (@enterNoPool numRanges cfg fuel n) := by
  intro s s' hs h
  unfold enterNoPool at h
  split_ifs at h with hplace
  obtain ⟨s₁, hfill, h⟩ := of_bind_eq_ok h
  obtain ⟨s₂, hspace, h⟩ := of_bind_eq_ok h
  have hs₂ := keeps_makeSpaceForInsts s₁ s₂ (keeps_insertNopFill s s₁ hs hfill) hspace
  exact ok.inj h ▸ hs₂.congr rfl rfl

lemma inv_step (e : Event numRanges) (hs : Inv s) (h : s.step cfg fuel e = .ok s') : Inv s' := by
  cases e with
  | allocEntry numInst numPoolEntries => exact keeps_allocEntry s s' hs h
  | putInt => exact keeps_putInt s s' hs h
  | nextInstrOffset =>
    rw [step, nextInstrOffset] at h
    split_ifs at h with hspace
    · exact ok.inj h ▸ hs
    · exact keeps_finishPool s s' hs h
  | flushPool => exact keeps_finishPool s s' hs h
  | registerBranchDeadline rangeIdx deadline =>
    rw [step, registerBranchDeadline] at h
    cases hadd : s.branchDeadlines.addDeadline rangeIdx deadline with
    | none => simp [hadd] at h
    | some set =>
      rw [hadd] at h
      exact ok.inj h ▸ ⟨hs.valid.addDeadline hadd, hs.limiting⟩
  | unregisterBranchDeadline rangeIdx deadline =>
    exact ok.inj h ▸ ⟨hs.valid.removeDeadline, hs.limiting⟩
  | enterNoPool maxInst => exact keeps_enterNoPool s s' hs h
  | leaveNoPool =>
    rw [step, leaveNoPool] at h
    split_ifs at h with hplace
    exact ok.inj h ▸ hs.congr rfl rfl
  | enterNoNops =>
    rw [step, enterNoNops] at h
    split_ifs at h with hnops
    exact ok.inj h ▸ hs.congr rfl rfl
  | leaveNoNops =>
    rw [step, leaveNoNops] at h
    split_ifs at h with hnops
    exact ok.inj h ▸ hs.congr rfl rfl
  | align alignment => exact keeps_align alignment s s' hs h
  | appendRawCode numBytes =>
    rw [step, appendRawCode] at h
    split_ifs at h with hempty
    exact ok.inj h ▸ hs.congr rfl rfl

theorem Reached.inv (h : Reached cfg s) : Inv s := by
  induction h with
  | initial => exact inv_initial
  | step fuel e _ heq ih => exact inv_step e ih heq

end SpiderMonkey.AssemblerBuffer
