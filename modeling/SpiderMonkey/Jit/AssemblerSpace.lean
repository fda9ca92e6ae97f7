import SpiderMonkey.Jit.AssemblerFlush

/-!
# Space for a request

After one pool is finished there is space for the instructions of a request, or there never will be: the recursion of
`insertEntryForwards` finds the buffer as it left it.
-/

namespace SpiderMonkey.AssemblerBuffer

open BranchDeadlineSet

variable {numRanges : ℕ} {cfg : Config} {s s' : AssemblerBuffer numRanges} {n p : ℕ}

/-- A request that is small for the range of the pool. -/
structure SmallRequest (cfg : Config) (numInst : ℕ) : Prop where
  pcBias_le : cfg.pcBias ≤ (numInst + cfg.guardSize + cfg.headerSize) * cfg.instSize
  lt_poolMaxOffset : (numInst + cfg.guardSize + cfg.headerSize) * cfg.instSize < cfg.poolMaxOffset + cfg.pcBias

/-! ## The limiting user -/

/-- The limiting user of an empty pool is the next instruction. -/
def Limited (s : AssemblerBuffer numRanges) : Prop :=
  s.pool.numEntries = 0 → s.pool.limiting = none ∨ s.pool.limiting = some (s.nextOffset, 0)

lemma updateLimiter_eq (p : ℕ) (s : AssemblerBuffer numRanges) :
    ∃ limiting, s.updateLimiter p = { s with pool := { s.pool with limiting := limiting } } := by
  unfold updateLimiter Pool.updateLimiter
  split_ifs with hp
  · exact ⟨s.pool.limiting, rfl⟩
  · dsimp only
    split
    · simp
    · split_ifs
      · simp
      · exact ⟨s.pool.limiting, rfl⟩

@[simp] lemma updateLimiter_nextOffset : (s.updateLimiter p).nextOffset = s.nextOffset := by
  obtain ⟨limiting, h⟩ := updateLimiter_eq p s
  rw [h]

@[simp] lemma updateLimiter_numEntries : (s.updateLimiter p).pool.numEntries = s.pool.numEntries := by
  obtain ⟨limiting, h⟩ := updateLimiter_eq p s
  rw [h]

@[simp] lemma updateLimiter_canNotPlacePool : (s.updateLimiter p).canNotPlacePool = s.canNotPlacePool := by
  obtain ⟨limiting, h⟩ := updateLimiter_eq p s
  rw [h]

@[simp] lemma flushBase_updateLimiter (reservedBytes : ℕ) :
    flushBase cfg reservedBytes (s.updateLimiter p) = flushBase cfg reservedBytes s := by
  obtain ⟨limiting, h⟩ := updateLimiter_eq p s
  rw [h]
  rfl

@[simp] lemma isPoolEmptyFor_updateLimiter (bytes : ℕ) :
    isPoolEmptyFor cfg bytes (s.updateLimiter p) = isPoolEmptyFor cfg bytes s := by
  obtain ⟨limiting, h⟩ := updateLimiter_eq p s
  rw [h]
  rfl

lemma Limited.updateLimiter (h : s.Limited) : (s.updateLimiter p).Limited := by
  intro hempty
  rw [updateLimiter_numEntries] at hempty
  rw [updateLimiter_nextOffset]
  unfold AssemblerBuffer.updateLimiter Pool.updateLimiter
  obtain hnone | hsome := h hempty
  · split_ifs with hp
    · exact .inl hnone
    · simp [hnone, hempty]
  · split_ifs with hp
    · exact .inr hsome
    · simp [hsome, Pool.getPoolSize, hempty]

lemma Limited.updateLimiter_updateLimiter (h : s.Limited) (hempty : s.pool.numEntries = 0) :
    (s.updateLimiter p).updateLimiter p = s.updateLimiter p := by
  unfold AssemblerBuffer.updateLimiter Pool.updateLimiter
  split_ifs with hp
  · rfl
  · obtain hnone | hsome := h hempty
    · simp [hnone]
    · simp [hsome, Pool.getPoolSize, hempty]

lemma Limited.checkFull (h : s.Limited) (hempty : s.pool.numEntries = 0) (hn : SmallRequest cfg n) :
    s.pool.checkFull cfg (s.nextOffset + (n + cfg.guardSize + cfg.headerSize) * cfg.instSize) = false := by
  obtain ⟨hle, hlt⟩ := hn
  unfold Pool.checkFull
  obtain hnone | hsome := h hempty
  · rw [hnone]
  · rw [hsome]
    generalize (n + cfg.guardSize + cfg.headerSize) * cfg.instSize = size at hle hlt
    generalize hmodulus : cfg.sizeMax + 1 = modulus
    have hpos : 0 < modulus := by omega
    have hmod := Nat.mod_lt (s.nextOffset + cfg.pcBias) hpos
    have hdiv := Nat.mod_add_div (s.nextOffset + cfg.pcBias) modulus
    have hsum : s.nextOffset + size + 0 * poolAllocUnitSize + (modulus - (s.nextOffset + cfg.pcBias) % modulus) =
        (size - cfg.pcBias) + modulus * ((s.nextOffset + cfg.pcBias) / modulus + 1) := by
      rw [Nat.mul_add, Nat.mul_one]
      omega
    dsimp only
    rw [hsum, Nat.add_mul_mod_self_left, decide_eq_false_iff_not]
    exact not_le.2 ((Nat.mod_le _ _).trans_lt (by omega))

/-! ## The recursion -/

lemma insertEntryForwards_of_hasSpace (h : hasSpaceForInsts cfg n p (s.updateLimiter p) = true) (fuel : ℕ) :
    insertEntryForwards cfg n p (fuel + 1) s = .ok ((s.updateLimiter p).insertEntry p) := by
  rw [insertEntryForwards]
  exact if_pos h

lemma insertEntryForwards_of_not_hasSpace (h : hasSpaceForInsts cfg n p (s.updateLimiter p) = false)
    (hfinish : finishPool cfg (n * cfg.instSize) (s.updateLimiter p) = .ok s') (fuel : ℕ) :
    insertEntryForwards cfg n p (fuel + 1) s = insertEntryForwards cfg n p fuel s' := by
  rw [insertEntryForwards]
  simp only [h, hfinish]
  rfl

lemma insertEntryForwards_stuck (hlimiter : s.updateLimiter p = s) (hspace : hasSpaceForInsts cfg n p s = false)
    (hempty : isPoolEmptyFor cfg (max (n * cfg.instSize) ShortRangeBranchHysteresis) s = true) (fuel : ℕ) :
    insertEntryForwards cfg n p fuel s = .error .outOfFuel := by
  induction fuel with
  | zero => rfl
  | succ fuel ih =>
    have hfinish : finishPool cfg (n * cfg.instSize) s = .ok s := by
      rw [finishPool]
      exact if_pos hempty
    rw [← hlimiter] at hspace hfinish
    rw [insertEntryForwards_of_not_hasSpace hspace hfinish, hlimiter]
    exact ih

lemma Inv.limited (h : Inv s) : s.Limited := fun hempty => .inl (h.limiting hempty)

lemma fits_updateLimiter : FitsAfterFlush cfg n p (s.updateLimiter p) ↔ FitsAfterFlush cfg n p s := by
  simp only [FitsAfterFlush, Survives, veneerPosition, updateLimiter_branchDeadlines, flushBase_updateLimiter]

lemma exists_finished (hvalid : s.branchDeadlines.Valid) (hlimited : s.Limited) (hplace : s.canNotPlacePool = false)
    (hn : SmallRequest cfg n) (p : ℕ) : ∃ s', finishPool cfg (n * cfg.instSize) s = .ok s' ∧
      s'.pool.numEntries = 0 ∧ s'.Limited ∧
      isPoolEmptyFor cfg (max (n * cfg.instSize) ShortRangeBranchHysteresis) s' = true ∧
      (hasSpaceForInsts cfg n p s' = true ↔ FitsAfterFlush cfg n p s) ∧
      (hasSpaceForInsts cfg n p (s'.updateLimiter p) = true ↔ FitsAfterFlush cfg n p s) := by
  obtain ⟨s', hfinish, hentries, hpool, hflushed⟩ := @finishPool_flushed _ cfg _ (n * cfg.instSize) hvalid hplace
  have hlimited' : s'.Limited := by
    obtain hpool | rfl := hpool
    · exact fun _ => .inl (by rw [hpool]; rfl)
    · exact hlimited
  have hempty : isPoolEmptyFor cfg (max (n * cfg.instSize) ShortRangeBranchHysteresis) s' = true := by
    have hnot : hasExpirableShortRangeBranches cfg (max (n * cfg.instSize) ShortRangeBranchHysteresis) s'.nextOffset
        s'.branchDeadlines = false := by
      have hfirst := hflushed.valid.earliest
      unfold hasExpirableShortRangeBranches
      cases hearliest : s'.branchDeadlines.earliest with
      | none => rfl
      | some acc =>
        rw [hearliest] at hfirst
        exact decide_eq_false (hflushed.mem_iff.1 hfirst.2.1).2
    simp [isPoolEmptyFor, hentries, hnot]
  refine ⟨s', hfinish, hentries, hlimited', hempty, ?_, ?_⟩
  · exact hasSpace_iff_fits hflushed hentries (hlimited'.checkFull hentries hn)
  · have hflushed' := hflushed
    rw [← updateLimiter_nextOffset (s := s') (p := p), ← updateLimiter_branchDeadlines (s := s') (p := p)] at hflushed'
    have hentries' : (s'.updateLimiter p).pool.numEntries = 0 := by simpa using hentries
    exact hasSpace_iff_fits hflushed' hentries' (hlimited'.updateLimiter.checkFull hentries' hn)

/-- In every state outside a region without pools: there is space after a pool is finished if and only if the first
branch without a veneer leaves room, and if there is not, the recursion has no end. -/
theorem hasSpace_after_finishPool_iff (hs : Reached cfg s) (hplace : s.canNotPlacePool = false)
    (hn : SmallRequest cfg n) (p : ℕ) :
    ((∃ s', finishPool cfg (n * cfg.instSize) s = .ok s' ∧ hasSpaceForInsts cfg n p s' = true) ↔
      FitsAfterFlush cfg n p s) ∧
    ((∃ s', insertEntryForwards cfg n p 2 s = .ok s') ↔
      hasSpaceForInsts cfg n p (s.updateLimiter p) = true ∨ FitsAfterFlush cfg n p s) ∧
    (¬(hasSpaceForInsts cfg n p (s.updateLimiter p) = true ∨ FitsAfterFlush cfg n p s) →
      ∀ fuel, insertEntryForwards cfg n p fuel s = .error .outOfFuel) := by
  have hinv := hs.inv
  obtain ⟨s₁, hfinish, -, -, -, hspace, -⟩ := exists_finished hinv.valid hinv.limited hplace hn p
  -- the recursion finishes the pool with its own limiting user
  have hvalid' : (s.updateLimiter p).branchDeadlines.Valid := by
    rw [updateLimiter_branchDeadlines]
    exact hinv.valid
  obtain ⟨s₂, hfinish₂, hentries₂, hlimited₂, hempty₂, -, hspace₂⟩ :=
    exists_finished hvalid' hinv.limited.updateLimiter (updateLimiter_canNotPlacePool.trans hplace) hn p
  rw [fits_updateLimiter] at hspace₂
  have hstuck : hasSpaceForInsts cfg n p (s₂.updateLimiter p) = false →
      ∀ fuel, insertEntryForwards cfg n p fuel s₂ = .error .outOfFuel := by
    intro hspace' fuel
    have hempty := (isPoolEmptyFor_updateLimiter (p := p) _).trans hempty₂
    have hlimiter := hlimited₂.updateLimiter_updateLimiter (p := p) hentries₂
    cases fuel with
    | zero => rfl
    | succ fuel =>
      have hfinish' : finishPool cfg (n * cfg.instSize) (s₂.updateLimiter p) = .ok (s₂.updateLimiter p) := by
        rw [finishPool]
        exact if_pos hempty
      rw [insertEntryForwards_of_not_hasSpace hspace' hfinish']
      exact insertEntryForwards_stuck hlimiter hspace' hempty fuel
  refine ⟨?_, ?_, ?_⟩
  · rw [hfinish]
    simpa using hspace
  · constructor
    · rintro ⟨s', h⟩
      by_contra hnone
      rw [not_or, Bool.not_eq_true] at hnone
      have hspace' : hasSpaceForInsts cfg n p (s₂.updateLimiter p) = false := by
        rw [← Bool.not_eq_true, hspace₂]
        exact hnone.2
      rw [insertEntryForwards_of_not_hasSpace hnone.1 hfinish₂, hstuck hspace'] at h
      simp at h
    · intro h
      cases hfirst : hasSpaceForInsts cfg n p (s.updateLimiter p) with
      | true => exact ⟨_, insertEntryForwards_of_hasSpace hfirst 1⟩
      | false =>
        have hfits := h.resolve_left (by simp [hfirst])
        rw [insertEntryForwards_of_not_hasSpace hfirst hfinish₂]
        exact ⟨_, insertEntryForwards_of_hasSpace (hspace₂.2 hfits) 0⟩
  · intro hnone fuel
    rw [not_or, Bool.not_eq_true] at hnone
    have hspace' : hasSpaceForInsts cfg n p (s₂.updateLimiter p) = false := by
      rw [← Bool.not_eq_true, hspace₂]
      exact hnone.2
    cases fuel with
    | zero => rfl
    | succ fuel =>
      rw [insertEntryForwards_of_not_hasSpace hnone.1 hfinish₂]
      exact hstuck hspace' fuel

/-! ## Many pending branches -/

/-- The buffer of the assembler for ARM64. -/
def arm64 : Config where
  instSize := 4
  guardSize := 1
  headerSize := 1
  poolMaxOffset := 1024
  pcBias := 0
  nopFill := 0
  sizeMax := 2 ^ 64 - 1

lemma smallRequest_arm64 : SmallRequest arm64 1 := ⟨by simp [arm64], by simp [arm64]⟩

theorem hasSpace_after_finishPool_iff_initial :
    ((∃ s', finishPool arm64 4 (initial : AssemblerBuffer 2) = .ok s' ∧ hasSpaceForInsts arm64 1 0 s' = true) ↔
      FitsAfterFlush arm64 1 0 (initial : AssemblerBuffer 2)) ∧
    ((∃ s', insertEntryForwards arm64 1 0 2 (initial : AssemblerBuffer 2) = .ok s') ↔
      hasSpaceForInsts arm64 1 0 ((initial : AssemblerBuffer 2).updateLimiter 0) = true ∨
        FitsAfterFlush arm64 1 0 (initial : AssemblerBuffer 2)) ∧
    (¬(hasSpaceForInsts arm64 1 0 ((initial : AssemblerBuffer 2).updateLimiter 0) = true ∨
        FitsAfterFlush arm64 1 0 (initial : AssemblerBuffer 2)) →
      ∀ fuel, insertEntryForwards arm64 1 0 fuel (initial : AssemblerBuffer 2) = .error .outOfFuel) :=
  hasSpace_after_finishPool_iff Reached.initial rfl smallRequest_arm64 0

/-- Pending branches, every second instruction a test and branch, the others conditional branches. -/
def pendingBranches (tests conds : ℕ) : BranchDeadlineSet 2 where
  vectorForRange r :=
    if r = 0 then (List.range tests).map fun i => 8 * i + 32764
    else (List.range conds).map fun i => 8 * i + 4 + 1048572
  earliest := if tests = 0 then none else some (32764, 0)

def withBranches (nextOffset tests conds : ℕ) : AssemblerBuffer 2 where
  nextOffset := nextOffset
  pool := Pool.initial
  poolEntryCount := 0
  branchDeadlines := pendingBranches tests conds
  canNotPlacePool := false
  canNotPlacePoolStartOffset := 0
  canNotPlacePoolMaxInst := 0
  inhibitNops := false

variable {next tests conds : ℕ}

lemma secondaryVeneers_pendingBranches (h : conds ≤ tests) :
    secondaryVeneers arm64 (pendingBranches tests conds) = conds := by
  have hmax : (pendingBranches tests conds).maxRangeSize = tests := by
    apply le_antisymm
    · exact Finset.sup_le fun r _ => by fin_cases r <;> simp [pendingBranches, h]
    · have hle := Finset.le_sup (f := fun r => ((pendingBranches tests conds).vectorForRange r).length)
        (Finset.mem_univ (0 : Fin 2))
      exact le_of_eq_of_le (by simp [pendingBranches]) hle
  rw [secondaryVeneers, hmax]
  simp [size, pendingBranches, arm64]

lemma hasSpace_withBranches (h : conds ≤ tests) : hasSpaceForInsts arm64 1 0 (withBranches next tests conds) = true ↔
    tests = 0 ∨ next + 12 + conds ≤ 32764 := by
  have hsecondary := secondaryVeneers_pendingBranches h
  unfold hasSpaceForInsts
  by_cases hnone : tests = 0
  · simp [withBranches, Pool.initial, Pool.checkFull, pendingBranches, hnone]
  · have hearliest : (withBranches next tests conds).branchDeadlines.earliest = some (32764, 0) := if_neg hnone
    have hdeadlines : (withBranches next tests conds).branchDeadlines = pendingBranches tests conds := rfl
    dsimp only
    rw [hearliest, hdeadlines, hsecondary]
    simp [withBranches, Pool.initial, Pool.checkFull, Pool.getPoolSize, hnone, arm64, Nat.add_assoc]

lemma setVector_test : (pendingBranches tests conds).setVector 0
      ((pendingBranches tests conds).vectorForRange 0 ++ [8 * tests + 32764]) =
    ⟨(pendingBranches (tests + 1) conds).vectorForRange, (pendingBranches tests conds).earliest⟩ := by
  unfold setVector
  congr 1
  funext r
  fin_cases r <;> simp [pendingBranches, List.range_succ]

lemma setVector_cond : (pendingBranches tests conds).setVector 1
      ((pendingBranches tests conds).vectorForRange 1 ++ [8 * conds + 4 + 1048572]) =
    ⟨(pendingBranches tests (conds + 1)).vectorForRange, (pendingBranches tests conds).earliest⟩ := by
  unfold setVector
  congr 1
  funext r
  fin_cases r <;> simp [pendingBranches, List.range_succ]

lemma addDeadline_test : (pendingBranches tests conds).addDeadline 0 (8 * tests + 32764) =
    some (pendingBranches (tests + 1) conds) := by
  unfold addDeadline
  dsimp only
  cases tests with
  | zero =>
    have hlast : ((pendingBranches 0 conds).vectorForRange 0).getLast? = none := rfl
    have hset : (pendingBranches 0 conds).setVector 0 [8 * 0 + 32764] = _ := setVector_test
    rw [hlast, hset]
    rfl
  | succ tests =>
    have hlast : ((pendingBranches (tests + 1) conds).vectorForRange 0).getLast? = some (8 * tests + 32764) := by
      simp [pendingBranches, List.range_succ]
    rw [hlast]
    dsimp only
    rw [if_pos (by omega), setVector_test]
    rfl

lemma addDeadline_cond (h : tests ≠ 0) : (pendingBranches tests conds).addDeadline 1 (8 * conds + 4 + 1048572) =
    some (pendingBranches tests (conds + 1)) := by
  unfold addDeadline
  dsimp only
  cases conds with
  | zero =>
    have hlast : ((pendingBranches tests 0).vectorForRange 1).getLast? = none := rfl
    have hset : (pendingBranches tests 0).setVector 1 [8 * 0 + 4 + 1048572] = _ := setVector_cond
    rw [hlast, hset]
    simp [updateEarliest, pendingBranches, h]
  | succ conds =>
    have hlast : ((pendingBranches tests (conds + 1)).vectorForRange 1).getLast? = some (8 * conds + 4 + 1048572) := by
      simp [pendingBranches, List.range_succ]
    rw [hlast]
    dsimp only
    rw [if_pos (by omega), setVector_cond]
    rfl

lemma putInt_withBranches (hle : conds ≤ tests) (h : tests = 0 ∨ next + 12 + conds ≤ 32764) :
    putInt arm64 0 (withBranches next tests conds) = .ok (withBranches (next + 4) tests conds) := by
  have hspace := (hasSpace_withBranches hle).2 h
  have hfill : arm64.nopFill = 0 := rfl
  rw [putInt, if_neg (by simp [hfill, hspace])]
  rfl

lemma reached_pairs (count : ℕ) (hcount : 9 * count + 12 ≤ 32764) :
    Reached arm64 (withBranches (8 * count) count count) := by
  induction count with
  | zero =>
    have hinitial : withBranches (8 * 0) 0 0 = initial := by
      have hvector : (pendingBranches 0 0).vectorForRange = fun _ => [] := by
        funext r
        fin_cases r <;> rfl
      rw [withBranches, initial, BranchDeadlineSet.initial, ← hvector]
      rfl
    rw [hinitial]
    exact Reached.initial
  | succ count ih =>
    have htest : Reached arm64 (withBranches (8 * count + 4) count count) :=
      (ih (by omega)).step 0 .putInt (putInt_withBranches le_rfl (.inr (by omega)))
    have htest' : Reached arm64 (withBranches (8 * count + 4) (count + 1) count) :=
      htest.step 0 (.registerBranchDeadline 0 (8 * count + 32764))
        (by rw [step, registerBranchDeadline, withBranches, addDeadline_test]; rfl)
    have hcond : Reached arm64 (withBranches (8 * count + 4 + 4) (count + 1) count) :=
      htest'.step 0 .putInt (putInt_withBranches (Nat.le_succ _) (.inr (by omega)))
    exact hcond.step 0 (.registerBranchDeadline 1 (8 * count + 4 + 1048572))
      (by rw [step, registerBranchDeadline, withBranches, addDeadline_cond (Nat.succ_ne_zero _)]; rfl)

lemma reached_instructions (k : ℕ) (hle : conds ≤ tests) (hs : Reached arm64 (withBranches next tests conds))
    (h : next + 4 * k + 8 + conds ≤ 32764) : Reached arm64 (withBranches (next + 4 * k) tests conds) := by
  induction k with
  | zero => exact hs
  | succ k ih => exact (ih (by omega)).step 0 .putInt (putInt_withBranches hle (.inr (by omega)))

/-- With 117 pending branches of each kind a single instruction can be asked for without end. -/
theorem no_space_after_finishPool : ∃ s : AssemblerBuffer 2, Reached arm64 s ∧ s.canNotPlacePool = false ∧
    SmallRequest arm64 1 ∧
    (¬∃ s', finishPool arm64 4 s = .ok s' ∧ hasSpaceForInsts arm64 1 0 s' = true) ∧
    ∀ fuel, putInt arm64 fuel s = .error .outOfFuel := by
  have hreached : Reached arm64 (withBranches 32636 117 117) :=
    reached_instructions 7925 le_rfl (reached_pairs 117 (by simp)) (by simp)
  have hspace : hasSpaceForInsts arm64 1 0 (withBranches 32636 117 117) = false := by
    rw [← Bool.not_eq_true, hasSpace_withBranches le_rfl]
    simp
  have hempty : isPoolEmptyFor arm64 (max (1 * arm64.instSize) ShortRangeBranchHysteresis)
      (withBranches 32636 117 117) = true := by
    have hnot : ¬expires arm64 128 32636 32764 := by simp [expires, arm64]
    have hexpirable : hasExpirableShortRangeBranches arm64 128 32636 (pendingBranches 117 117) = false :=
      decide_eq_false hnot
    exact congrArg (!·) hexpirable
  have hfinish : finishPool arm64 4 (withBranches 32636 117 117) = .ok (withBranches 32636 117 117) := by
    rw [finishPool]
    exact if_pos hempty
  refine ⟨_, hreached, rfl, smallRequest_arm64, ?_, fun fuel => ?_⟩
  · rintro ⟨s', h, hspace'⟩
    rw [hfinish] at h
    rw [← Except.ok.inj h, hspace] at hspace'
    simp at hspace'
  · have hstuck := insertEntryForwards_stuck (p := 0) rfl hspace hempty fuel
    have hfill : insertNopFill arm64 fuel (withBranches 32636 117 117) = .ok (withBranches 32636 117 117) := rfl
    rw [putInt, if_pos (.inr hspace), allocEntry, if_neg (by simp), hfill]
    simp only [bind, Except.bind, allocFilledEntry, hstuck]

end SpiderMonkey.AssemblerBuffer
