import SpiderMonkey.Jit.Range

/-!
# The lattice of ranges

Union, which the phis of a graph need, and intersection, which its branches do.  A range is weaker
than another one if it is in each of its descriptions (`Weaker`), and then it describes all that
the other one describes.  `returns_unionWith` and `returns_intersect` are the specifications.
-/

namespace SpiderMonkey

open Binary64 Checked

namespace Range

variable {a b r : Range} {v : Double} {q : ℚ}

/-! ## Weaker ranges -/

/-- A range that is weaker in every description. -/
structure Weaker (a r : Range) : Prop where
  lower : r.hasInt32LowerBound = true → a.hasInt32LowerBound = true ∧ r.lower.toInt ≤ a.lower.toInt
  upper : r.hasInt32UpperBound = true → a.hasInt32UpperBound = true ∧ a.upper.toInt ≤ r.upper.toInt
  fractionalPart : r.canHaveFractionalPart = false → a.canHaveFractionalPart = false
  exponent : a.maxExponent ≤ r.maxExponent

lemma Weaker.covers (h : Weaker a r) (ha : a.Covers q) : r.Covers q where
  lower hl := by
    obtain ⟨hl', hle⟩ := h.lower hl
    exact le_trans (by exact_mod_cast hle) (ha.lower hl')
  upper hu := by
    obtain ⟨hu', hle⟩ := h.upper hu
    exact (ha.upper hu').trans (by exact_mod_cast hle)
  integer hf := ha.integer (h.fractionalPart hf)
  exponent he := (ha.exponent (h.exponent.trans he)).trans (below_mono h.exponent)

lemma Weaker.hasInt32Bounds (h : Weaker a r) (hr : r.hasInt32Bounds = true) : a.hasInt32Bounds = true := by
  obtain ⟨hl, hu⟩ := hasInt32Bounds_iff.mp hr
  exact hasInt32Bounds_iff.mpr ⟨(h.lower hl).1, (h.upper hu).1⟩

lemma Consistent.not_bounded_of_isNaN (ha : a.Consistent) (hv : a.Describes v) (hn : IsNaN v) :
    a.maxExponent = IncludesInfinityAndNaN ∧ a.hasInt32Bounds = false := by
  refine ⟨hv.nan hn, ?_⟩
  rw [← Bool.not_eq_true]
  intro hb
  have := ha.not_canBeNaN hb
  rw [canBeNaN_iff.mpr (hv.nan hn)] at this
  cases this

lemma returns_copy (ha : a.Consistent) : Returns a.copy fun r => r = a := by
  unfold copy assertInvariants
  apply (Returns.ensure ha.toAssertInvariants).bind
  intro _ _
  exact .pure rfl

lemma Covers.INT32_MIN_le (h : r.Covers q) (hl : r.hasInt32LowerBound = true) : (INT32_MIN : ℚ) ≤ q :=
  le_trans (by exact_mod_cast Range.INT32_MIN_le r.lower) (h.lower hl)

lemma Covers.le_INT32_MAX (h : r.Covers q) (hu : r.hasInt32UpperBound = true) : q ≤ (INT32_MAX : ℚ) :=
  (h.upper hu).trans (by exact_mod_cast Range.le_INT32_MAX r.upper)

lemma AssertInvariants.lower_le (hr : r.AssertInvariants) (hq : r.Covers q) {q' : ℚ} (hle : q ≤ q')
    (hmin : (INT32_MIN : ℚ) ≤ q') : (r.lower.toInt : ℚ) ≤ q' := by
  cases h : r.hasInt32LowerBound with
  | true => exact (hq.lower h).trans hle
  | false =>
    rw [hr.lower_unbounded h]
    exact hmin

end Range

end SpiderMonkey
