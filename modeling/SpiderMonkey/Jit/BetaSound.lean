import SpiderMonkey.Jit.BetaNodes
import SpiderMonkey.Jit.DoubleBounds

/-!
# Soundness of beta nodes

Every range that `addBetaNodes` attaches holds the values of its operand for which the branch is
taken: all of them, NaN behind the branch of a comparison that fails, and negative zero unless the
comparison with zero is strict.
-/

namespace SpiderMonkey

open Binary64 Checked

namespace RangeAnalysis

open Range

/-! ## Soundness -/

variable {v bound : Double} {type : MIRType} {r : Range}

lemma isNegativeZero_isFinite (h : IsNegativeZero v) : IsFinite v := by
  intro hexp
  have hmag := toRat_eq_zero_iff.mp h.toRat_eq
  unfold scaled at hmag
  rw [hexp, if_neg (by norm_num)] at hmag
  omega

lemma toRat_ofInt_toInt (k : BitVec 32) : IsFinite (ofInt k.toInt) ∧ toRat (ofInt k.toInt) = k.toInt := by
  have hlow := BitVec.le_toInt k
  have hhigh := BitVec.toInt_lt (x := k)
  exact toRat_ofInt (by omega)

lemma not_isNegativeZero_ofInt (k : BitVec 32) : ¬IsNegativeZero (ofInt k.toInt) := by
  intro hz
  have hneg := hz.1
  rw [isNegative_ofInt, decide_eq_true_eq] at hneg
  have hval := (toRat_ofInt_toInt k).2
  rw [hz.toRat_eq] at hval
  have : k.toInt = 0 := by exact_mod_cast hval.symm
  omega

lemma NumberEqualsInt32_eq_some {k : BitVec 32} (h : NumberEqualsInt32 bound = some k) :
    IsFinite bound ∧ toRat bound = k.toInt := by
  unfold NumberEqualsInt32 at h
  split at h
  next hc =>
    obtain ⟨hfin, hden, hlow, hhigh⟩ := hc
    refine ⟨hfin, ?_⟩
    cases h
    rw [toInt_ofInt hlow hhigh]
    exact (Rat.den_eq_one_iff _).mp hden |>.symm
  next => cases h

/-- The bound stays, or it is an int32 value and moves to its neighbour. -/
lemma tighten_cases (step : BitVec 32 → BitVec 32 → Option (BitVec 32)) :
    tighten type step bound = bound ∨ ∃ k k', type = .Int32 ∧ IsFinite bound ∧
      toRat bound = k.toInt ∧ step k 1#32 = some k' ∧ tighten type step bound = ofInt k'.toInt := by
  unfold tighten
  split
  next htype =>
    split
    next k hk =>
      obtain ⟨hfin, hval⟩ := NumberEqualsInt32_eq_some hk
      split
      next k' hk' => exact .inr ⟨k, k', htype, hfin, hval, hk', rfl⟩
      next => exact .inl rfl
    next => exact .inl rfl
  next => exact .inl rfl

lemma SafeSub_eq_some {k k' : BitVec 32} (h : SafeSub k 1#32 = some k') : k'.toInt = k.toInt - 1 := by
  unfold SafeSub at h
  split at h
  next hc =>
    cases h
    exact hc
  next => cases h

lemma SafeAdd_eq_some {k k' : BitVec 32} (h : SafeAdd k 1#32 = some k') : k'.toInt = k.toInt + 1 := by
  unfold SafeAdd at h
  split at h
  next hc =>
    cases h
    exact hc
  next => cases h

/-- A value that is strictly on one side of a bound is on that side of the tightened bound, and no negative zero if
that is zero. -/
lemma tighten_satisfies {strict loose : CompareOp} {step : BitVec 32 → BitVec 32 → Option (BitVec 32)} {nan : Bool}
    (h : strict.Satisfies nan v bound) (hint : type = .Int32 → ∃ k : BitVec 32, v = ofInt k.toInt)
    (hloose : ∀ p q, strict.relation p q → loose.relation p q) (hirrefl : ∀ p, ¬strict.relation p p)
    (hstep : ∀ j k k' : BitVec 32, step k 1#32 = some k' → strict.relation j.toInt k.toInt →
      loose.relation j.toInt k'.toInt)
    (hunordered : ∀ {b}, IsNaN v ∨ IsNaN b → strict.isEquality = false ∧ (nan = true ∨ strict.unordered = true) →
      loose.isEquality = false ∧ (nan = true ∨ loose.unordered = true)) :
    loose.Satisfies nan v (tighten type step bound) ∧
      (equalsZero (tighten type step bound) = true → ¬IsNegativeZero v) := by
  obtain heq | ⟨k, k', htype, hfin, hval, hk', heq⟩ := @tighten_cases bound type step
  · rw [heq]
    refine ⟨⟨fun hv hb => hloose _ _ (h.relation hv hb), fun hn => hunordered hn (h.unordered hn)⟩, fun hzero hz => ?_⟩
    obtain ⟨hb, hzero⟩ := of_decide_eq_true hzero
    have hrel := h.relation (isNegativeZero_isFinite hz).not_isNaN hb
    rw [hzero, hz.toRat_eq] at hrel
    exact hirrefl _ hrel
  · obtain ⟨j, rfl⟩ := hint htype
    obtain ⟨hfin', hval'⟩ := toRat_ofInt_toInt j
    obtain ⟨hfin'', hval''⟩ := toRat_ofInt_toInt k'
    have hrel := h.relation hfin'.not_isNaN hfin.not_isNaN
    rw [heq]
    refine ⟨⟨fun _ _ => ?_, fun hn => ?_⟩, fun _ => not_isNegativeZero_ofInt j⟩
    · rw [hval', hval] at hrel
      rw [hval', hval'']
      exact hstep j k k' hk' hrel
    · exact absurd hn (not_or.mpr ⟨hfin'.not_isNaN, hfin''.not_isNaN⟩)

lemma tighten_lt (hint : type = .Int32 → ∃ k : BitVec 32, v = ofInt k.toInt) {nan : Bool}
    (h : CompareOp.Lt.Satisfies nan v bound) :
    CompareOp.Le.Satisfies nan v (tighten type SafeSub bound) ∧
      (equalsZero (tighten type SafeSub bound) = true → ¬IsNegativeZero v) := by
  refine tighten_satisfies h hint (fun _ _ => le_of_lt) lt_irrefl (fun j k k' hk' hlt => ?_) fun _ => id
  have hlt : j.toInt < k.toInt := Int.cast_lt.1 (show (j.toInt : ℚ) < k.toInt from hlt)
  show (j.toInt : ℚ) ≤ k'.toInt
  rw [SafeSub_eq_some hk']
  exact_mod_cast (by omega : j.toInt ≤ k.toInt - 1)

lemma tighten_gt (hint : type = .Int32 → ∃ k : BitVec 32, v = ofInt k.toInt) {nan : Bool}
    (h : CompareOp.Gt.Satisfies nan v bound) :
    CompareOp.Ge.Satisfies nan v (tighten type SafeAdd bound) ∧
      (equalsZero (tighten type SafeAdd bound) = true → ¬IsNegativeZero v) := by
  refine tighten_satisfies h hint (fun _ _ => le_of_lt) lt_irrefl (fun j k k' hk' hlt => ?_) fun _ => id
  have hlt : k.toInt < j.toInt := Int.cast_lt.1 (show (k.toInt : ℚ) < j.toInt from hlt)
  show (k'.toInt : ℚ) ≤ j.toInt
  rw [SafeAdd_eq_some hk']
  exact_mod_cast (by omega : k.toInt + 1 ≤ j.toInt)

/-- The bounds that stand for no bound at all: NaN behind the branch of a comparison that does not
hold, an infinity behind the other one. -/
def conservative (failed negative : Bool) : Double := if failed then nan else infinity negative

lemma conservative_le {nan : Bool} (hn : ¬IsNaN (conservative nan true)) (hv : ¬IsNaN v) :
    toRat (conservative nan true) ≤ toRat v := by
  cases nan with
  | true => exact absurd isNaN_nan hn
  | false =>
    show toRat (infinity true) ≤ _
    rw [toRat_infinity, if_pos rfl]
    exact (abs_le.mp (abs_toRat_le hv)).1

lemma le_conservative {nan : Bool} (hv : ¬IsNaN v) (hn : ¬IsNaN (conservative nan false)) :
    toRat v ≤ toRat (conservative nan false) := by
  cases nan with
  | true => exact absurd isNaN_nan hn
  | false =>
    show _ ≤ toRat (infinity false)
    rw [toRat_infinity, if_neg Bool.false_ne_true]
    exact (abs_le.mp (abs_toRat_le hv)).2

/-- Where a value or its bound may be NaN, the conservative bound is. -/
lemma isNaN_conservative {jsop : CompareOp} {nan : Bool} (h : jsop.Satisfies nan v bound)
    (hop : jsop.unordered = false) (hv : IsNaN v) (negative : Bool) : IsNaN (conservative nan negative) := by
  rw [(h.unordered (.inl hv)).2.resolve_right (by simp [hop])]
  exact isNaN_nan

lemma within_of_le {nan : Bool} (h : CompareOp.Le.Satisfies nan v bound) : Within (conservative nan true) bound v :=
  ⟨fun hv => .inl (isNaN_conservative h rfl hv _), fun hv hn => conservative_le hn hv, h.relation⟩

lemma within_of_ge {nan : Bool} (h : CompareOp.Ge.Satisfies nan v bound) : Within bound (conservative nan false) v :=
  ⟨fun hv => .inr (isNaN_conservative h rfl hv _), h.relation, le_conservative⟩

lemma setUnknown_eq : setUnknown = .ok
    ⟨int32MinValue, int32MaxValue, false, false, true, true, IncludesInfinityAndNaN⟩ := by
  decide +kernel

lemma consistent_unknown : Consistent
    ⟨int32MinValue, int32MaxValue, false, false, true, true, IncludesInfinityAndNaN⟩ :=
  ⟨by decide, nofun, natAbs_le_of_two_pow (by decide), natAbs_le_of_two_pow (by decide), nofun⟩

lemma describes_unknown (v : Double) : Describes
    ⟨int32MinValue, int32MaxValue, false, false, true, true, IncludesInfinityAndNaN⟩ v := by
  by_cases hn : IsNaN v
  · exact describes_nan hn rfl
  · refine (describes_iff hn).mpr ⟨⟨nofun, nofun, nofun, fun h => absurd h (by decide)⟩, fun _ => rfl⟩

lemma returns_setUnknown : Returns setUnknown fun r => r.Consistent ∧ ∀ v, r.Describes v :=
  ⟨_, setUnknown_eq, consistent_unknown, describes_unknown⟩

/-- The specification of the ranges of beta nodes, for the operator behind the branch. -/
def BetaSpec (jsop : CompareOp) (nan : Bool) (type : MIRType) (bound : Double) (r : Range) : Prop :=
  r.Consistent ∧ ∀ v, (type = .Int32 → ∃ k : BitVec 32, v = ofInt k.toInt) → jsop.Satisfies nan v bound → r.Describes v

lemma returns_setDouble_le (nan : Bool) (bound : Double) :
    Returns (setDouble (conservative nan true) bound) fun r => r.Consistent ∧
      ∀ v, CompareOp.Le.Satisfies nan v bound → r.Describes v := by
  apply (returns_setDouble conservative_le).imp
  rintro r ⟨hr, hdesc⟩
  exact ⟨hr, fun v hv => hdesc v (within_of_le hv)⟩

lemma returns_setDouble_ge (nan : Bool) (bound : Double) :
    Returns (setDouble bound (conservative nan false)) fun r => r.Consistent ∧
      ∀ v, CompareOp.Ge.Satisfies nan v bound → r.Describes v := by
  apply (returns_setDouble le_conservative).imp
  rintro r ⟨hr, hdesc⟩
  exact ⟨hr, fun v hv => hdesc v (within_of_ge hv)⟩

lemma returns_setDouble_eq (bound : Double) : Returns (setDouble bound bound) fun r => r.Consistent ∧
      ∀ v, ¬IsNaN v → ¬IsNaN bound → toRat v = toRat bound → r.Describes v := by
  apply (returns_setDouble fun _ _ => le_rfl).imp
  rintro r ⟨hr, hdesc⟩
  exact ⟨hr, fun v hv hb heq =>
    hdesc v ⟨fun hn => absurd hn hv, fun _ _ => heq.ge, fun _ _ => heq.le⟩⟩

lemma satisfies_equality {jsop : CompareOp} {nan : Bool} (heq : jsop.isEquality = true)
    (h : jsop.Satisfies nan v bound) : ¬IsNaN v ∧ ¬IsNaN bound ∧ toRat v = toRat bound := by
  have hn : ¬(IsNaN v ∨ IsNaN bound) := by
    intro hn
    rw [(h.unordered hn).1] at heq
    cases heq
  obtain ⟨hv, hb⟩ := not_or.mp hn
  refine ⟨hv, hb, ?_⟩
  have hrel := h.relation hv hb
  cases jsop <;> first | exact hrel | exact absurd heq (by decide)

lemma returns_excludeNegativeZeroAt (hr : r.Consistent) {P : Double → Prop} (hdesc : ∀ v, P v → r.Describes v)
    (hzero : ∀ v, P v → equalsZero bound = true → ¬IsNegativeZero v) :
    Returns (excludeNegativeZeroAt bound r) fun r' => ∀ r₁, r' = some r₁ → r₁.Consistent ∧
      ∀ v, P v → r₁.Describes v := by
  unfold excludeNegativeZeroAt
  refine .ite (fun hz => ?_) fun _ => .pure ?_
  · obtain ⟨r₁, heq, hr₁, hdesc₁⟩ := returns_refineToExcludeNegativeZero hr
    refine ⟨some r₁, by rw [heq]; rfl, ?_⟩
    rintro _ ⟨⟩
    exact ⟨hr₁, fun v hv => hdesc₁ v (hdesc v hv) (hzero v hv hz)⟩
  · rintro _ ⟨⟩
    exact ⟨hr, hdesc⟩

lemma returns_some {m : Checked Range} {Q : Range → Prop} (h : Returns m Q) :
    Returns (some <$> m) fun r' => ∀ r₁, r' = some r₁ → Q r₁ := by
  obtain ⟨r, rfl, hr⟩ := h
  exact ⟨some r, rfl, by rintro _ ⟨⟩; exact hr⟩

theorem returns_betaRange (jsop : CompareOp) (nan : Bool) (type : MIRType) (bound : Double) :
    Returns (betaRange jsop type bound (conservative nan true) (conservative nan false))
      fun r => ∀ r', r = some r' → BetaSpec jsop nan type bound r' := by
  have hne : ∀ jsop : CompareOp, (∀ p q, jsop.relation p q → p ≠ q) →
      Returns (if equalsZero bound then (do some <$> (← setUnknown).refineToExcludeNegativeZero)
        else return none : Checked (Option Range))
      fun r => ∀ r', r = some r' → BetaSpec jsop nan type bound r' := by
    intro jsop hrel
    refine .ite (fun hz => ?_) fun _ => .pure nofun
    apply returns_setUnknown.bind
    rintro r ⟨hr, hall⟩
    apply returns_some
    apply (returns_refineToExcludeNegativeZero hr).imp
    rintro r' ⟨hr', hdesc⟩
    refine ⟨hr', fun v _ hv => hdesc v (hall v) fun hneg => ?_⟩
    obtain ⟨hb, hzero⟩ := of_decide_eq_true hz
    apply hrel _ _ (hv.relation (isNegativeZero_isFinite hneg).not_isNaN hb)
    rw [hneg.toRat_eq, hzero]
  have heq : ∀ jsop : CompareOp, jsop.isEquality = true → Returns (some <$> setDouble bound bound)
      fun r => ∀ r', r = some r' → BetaSpec jsop nan type bound r' := by
    intro jsop hjsop
    apply returns_some
    apply (returns_setDouble_eq bound).imp
    rintro r ⟨hr, hdesc⟩
    refine ⟨hr, fun v _ hv => ?_⟩
    obtain ⟨hn, hb, hval⟩ := satisfies_equality hjsop hv
    exact hdesc v hn hb hval
  cases jsop with
  | Le =>
    apply returns_some
    apply (returns_setDouble_le nan bound).imp
    rintro r ⟨hr, hdesc⟩
    exact ⟨hr, fun v _ => hdesc v⟩
  | Ge =>
    apply returns_some
    apply (returns_setDouble_ge nan bound).imp
    rintro r ⟨hr, hdesc⟩
    exact ⟨hr, fun v _ => hdesc v⟩
  | Lt =>
    apply (returns_setDouble_le nan (tighten type SafeSub bound)).bind
    rintro r ⟨hr, hdesc⟩
    apply (returns_excludeNegativeZeroAt (P := fun v => (type = .Int32 → ∃ k : BitVec 32,
      v = ofInt k.toInt) ∧ CompareOp.Lt.Satisfies nan v bound) hr
      (fun v hv => hdesc v (tighten_lt hv.1 hv.2).1) fun v hv => (tighten_lt hv.1 hv.2).2).imp
    intro r' h r₁ h₁
    exact ⟨(h r₁ h₁).1, fun v hint hv => (h r₁ h₁).2 v ⟨hint, hv⟩⟩
  | Gt =>
    apply (returns_setDouble_ge nan (tighten type SafeAdd bound)).bind
    rintro r ⟨hr, hdesc⟩
    apply (returns_excludeNegativeZeroAt (P := fun v => (type = .Int32 → ∃ k : BitVec 32,
      v = ofInt k.toInt) ∧ CompareOp.Gt.Satisfies nan v bound) hr
      (fun v hv => hdesc v (tighten_gt hv.1 hv.2).1) fun v hv => (tighten_gt hv.1 hv.2).2).imp
    intro r' h r₁ h₁
    exact ⟨(h r₁ h₁).1, fun v hint hv => (h r₁ h₁).2 v ⟨hint, hv⟩⟩
  | Eq => exact heq .Eq rfl
  | StrictEq => exact heq .StrictEq rfl
  | Ne => exact hne .Ne fun p q => id
  | StrictNe => exact hne .StrictNe fun p q => id

end RangeAnalysis

/-! ## Blocks -/

/-- The value of an operand of a comparison of `x` with `y`. -/
def Side.value : Side → Double → Double → Double
  | .left, x, _ => x
  | .right, _, y => y

/-- The operands that the branch is taken for. -/
structure DominatorBranch.Taken (block : DominatorBranch) (x y : Double) : Prop where
  left : block.compare.left.Yields x
  right : block.compare.right.Yields y
  outcome : block.compare.jsop.compare x y = decide (block.branch_dir = .TRUE_BRANCH)

/-- What a beta node of a block guarantees: its range has the invariant and holds the operand
whenever the branch is taken. -/
def MBeta.Sound (block : DominatorBranch) (beta : MBeta) : Prop :=
  beta.comparison.Consistent ∧ ∀ x y, block.Taken x y → beta.comparison.Describes (beta.operand.value x y)

variable {block : DominatorBranch} {x y : Double}

/-- The operator behind the branch. -/
def DominatorBranch.jsop (block : DominatorBranch) : CompareOp :=
  if block.branch_dir = .FALSE_BRANCH then NegateCompareOp block.compare.jsop
  else block.compare.jsop

def DominatorBranch.failed (block : DominatorBranch) : Bool :=
  decide (block.branch_dir = .FALSE_BRANCH)

lemma DominatorBranch.Taken.satisfies (h : block.Taken x y) : block.jsop.Satisfies block.failed x y := by
  have hout := h.outcome
  unfold DominatorBranch.jsop DominatorBranch.failed
  cases hdir : block.branch_dir with
  | FALSE_BRANCH =>
    rw [hdir] at hout
    simpa using CompareOp.satisfies_negate hout
  | TRUE_BRANCH =>
    rw [hdir] at hout
    simpa using CompareOp.satisfies_of_compare hout

namespace RangeAnalysis

open Range

lemma returns_copy {r : Range} (hr : r.Consistent) : Returns r.copy fun r' => r' = r := by
  unfold Range.copy
  apply (returns_assertInvariants hr.tight).bind
  intro _ _
  exact .pure rfl

lemma returns_attach {operand : Side} {comp : Option Range} (h : ∀ r, comp = some r → MBeta.Sound block ⟨operand, r⟩) :
    Returns (attach operand comp) fun betas => ∀ beta ∈ betas, beta.Sound block := by
  cases comp with
  | none => exact .pure nofun
  | some r =>
    unfold attach
    apply (returns_copy (h r rfl).1).bind
    rintro _ rfl
    exact .pure (by simpa using h _ rfl)

lemma returns_int32BetaNodes {smaller greater : Side}
    (h : ∀ x y, block.Taken x y → ∃ k k' : BitVec 32, smaller.value x y = ofInt k.toInt ∧
      greater.value x y = ofInt k'.toInt ∧ k.toInt < k'.toInt) :
    Returns (int32BetaNodes smaller greater) fun betas => ∀ beta ∈ betas, beta.Sound block := by
  unfold int32BetaNodes
  apply (returns_NewInt32Range (by decide)).bind
  rintro below ⟨hb, hbelow⟩
  apply (returns_NewInt32Range (by decide)).bind
  rintro above ⟨ha, habove⟩
  refine .pure ?_
  simp only [List.mem_cons, List.not_mem_nil, or_false, forall_eq_or_imp, forall_eq]
  refine ⟨⟨hb, fun x y hxy => ?_⟩, ⟨ha, fun x y hxy => ?_⟩⟩
  · obtain ⟨k, k', hk, -, hlt⟩ := h x y hxy
    show below.Describes (smaller.value x y)
    rw [hk]
    have hlow := BitVec.le_toInt k
    have hhigh := BitVec.toInt_lt (x := k')
    exact hbelow _ hlow (show k.toInt ≤ 2 ^ 31 - 1 - 1 by omega)
  · obtain ⟨k, k', -, hk', hlt⟩ := h x y hxy
    show above.Describes (greater.value x y)
    rw [hk']
    have hlow := BitVec.le_toInt k
    have hhigh := BitVec.toInt_lt (x := k')
    exact habove _ (show -2 ^ 31 + 1 ≤ k'.toInt by omega) (show k'.toInt ≤ 2 ^ 31 - 1 by omega)

lemma exists_lt_of_taken (h : block.Taken x y)
    (hleft : block.compare.left.type = .Int32) (hright : block.compare.right.type = .Int32) :
    ∃ k k' : BitVec 32, x = ofInt k.toInt ∧ y = ofInt k'.toInt ∧ block.jsop.relation k.toInt k'.toInt := by
  obtain ⟨k, rfl⟩ := h.left.int32 hleft
  obtain ⟨k', rfl⟩ := h.right.int32 hright
  have hrel := h.satisfies.relation (toRat_ofInt_toInt k).1.not_isNaN
    (toRat_ofInt_toInt k').1.not_isNaN
  rw [(toRat_ofInt_toInt k).2, (toRat_ofInt_toInt k').2] at hrel
  exact ⟨k, k', rfl, rfl, hrel⟩

theorem returns_betaNodes (block : DominatorBranch) :
    Returns (betaNodes block) fun betas => ∀ beta ∈ betas, beta.Sound block := by
  have hlow : (if block.branch_dir = .FALSE_BRANCH then nan else infinity true) = conservative block.failed true := by
    unfold conservative DominatorBranch.failed
    simp
  have hup : (if block.branch_dir = .FALSE_BRANCH then nan else infinity false) = conservative block.failed false := by
    unfold conservative DominatorBranch.failed
    simp
  have hop : (if block.branch_dir = .FALSE_BRANCH then NegateCompareOp block.compare.jsop
      else block.compare.jsop) = block.jsop := rfl
  unfold betaNodes
  dsimp only
  refine .ite (fun _ => .pure nofun) fun _ => ?_
  rw [hlow, hup, hop]
  cases hleft : block.compare.left.constantDouble with
  | some bound =>
    apply (returns_betaRange (ReverseCompareOp block.jsop) block.failed block.compare.right.type
      bound).bind
    intro comp hcomp
    apply returns_attach
    rintro r rfl
    obtain ⟨hr, hdesc⟩ := hcomp r rfl
    refine ⟨hr, fun x y h => hdesc y h.right.int32 ?_⟩
    obtain rfl := h.left.constant bound hleft
    exact h.satisfies.reverse
  | none =>
    cases hright : block.compare.right.constantDouble with
    | some bound =>
      apply (returns_betaRange block.jsop block.failed block.compare.left.type bound).bind
      intro comp hcomp
      apply returns_attach
      rintro r rfl
      obtain ⟨hr, hdesc⟩ := hcomp r rfl
      refine ⟨hr, fun x y h => hdesc x h.left.int32 ?_⟩
      obtain rfl := h.right.constant bound hright
      exact h.satisfies
    | none =>
      refine .ite (fun hint => ?_) fun _ => .pure nofun
      obtain ⟨hl, hr⟩ := hint
      cases hop : block.jsop
      case Lt =>
        apply returns_int32BetaNodes
        intro x y h
        obtain ⟨k, k', hx, hy, hrel⟩ := exists_lt_of_taken h hl hr
        rw [hop] at hrel
        have hlt : (k.toInt : ℚ) < k'.toInt := hrel
        exact ⟨k, k', hx, hy, by exact_mod_cast hlt⟩
      case Gt =>
        apply returns_int32BetaNodes
        intro x y h
        obtain ⟨k, k', hx, hy, hrel⟩ := exists_lt_of_taken h hl hr
        rw [hop] at hrel
        have hlt : (k'.toInt : ℚ) < k.toInt := hrel
        exact ⟨k', k, hy, hx, by exact_mod_cast hlt⟩
      all_goals exact .pure nofun

/-- The beta nodes of a block that may be decided by a comparison. -/
def BlockSound (block : Option DominatorBranch) (betas : List MBeta) : Prop :=
  ∀ b, block = some b → ∀ beta ∈ betas, beta.Sound b

lemma returns_blockBetaNodes (block : Option DominatorBranch) : Returns (blockBetaNodes block) (BlockSound block) := by
  cases block with
  | none => exact ⟨[], rfl, fun b hb => absurd hb (by simp)⟩
  | some block =>
    obtain ⟨betas, heq, h⟩ := returns_betaNodes block
    refine ⟨betas, heq, ?_⟩
    rintro _ ⟨⟩
    exact h

/-- **Soundness of beta nodes.**  No assertion fails, `setDouble` contains all doubles between its
bounds, and each range that `addBetaNodes` attaches holds its operand whenever the branch is
taken. -/
theorem addBetaNodes_sound : (∀ l h : Double, (¬IsNaN l → ¬IsNaN h → toRat l ≤ toRat h) →
      Returns (setDouble l h) fun r => r.Consistent ∧ ∀ v, Within l h v → r.Describes v) ∧
    ∀ blocks : List (Option DominatorBranch), Returns (addBetaNodes blocks) (List.Forall₂ BlockSound blocks) :=
  ⟨fun _ _ => returns_setDouble, Returns.mapM returns_blockBetaNodes⟩

/-- The doubles from zero to one. -/
theorem addBetaNodes_sound_unit : Returns (setDouble (ofInt 0) (ofInt 1)) fun r =>
    r.Consistent ∧ ∀ v, Within (ofInt 0) (ofInt 1) v → r.Describes v :=
  addBetaNodes_sound.1 _ _ fun _ _ => by
    rw [(toRat_ofInt (k := 0) (by norm_num)).2, (toRat_ofInt (k := 1) (by norm_num)).2]
    norm_num

end RangeAnalysis

end SpiderMonkey
