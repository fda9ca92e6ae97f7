import Mathlib.Data.Nat.Digits.Lemmas
import Mathlib.Data.List.DropRight
import Mathlib.Data.List.GetD
import Mathlib.Tactic

/-!
# Little-endian numerals over machine words

A multi-precision magnitude is a list of `w`-bit digits, least significant first.  This file
gives the number `val ds` such a list denotes and the facts every digit loop is measured
against: how `val` splits at a position, which bounds the length and a nonzero top digit give,
that dropping high zero digits keeps the value, and that a list without a high zero digit is
determined by its value.

`val` is Mathlib's `Nat.ofDigits` in base `2 ^ w`, so everything about numerals is taken from
there.
-/

namespace Radix

open List Nat

variable {w : ℕ}

variable (ds : List (BitVec w))

/-- The number a little-endian list of `w`-bit digits denotes. -/
def val : ℕ := ofDigits (2 ^ w) (ds.map BitVec.toNat)

@[simp] lemma val_nil : val ([] : List (BitVec w)) = 0 := rfl

@[simp] lemma val_cons (d : BitVec w) (ds : List (BitVec w)) : val (d :: ds) = d.toNat + 2 ^ w * val ds := by
  simp [val, ofDigits_cons]

lemma val_append (ds es : List (BitVec w)) : val (ds ++ es) = val ds + (2 ^ w) ^ ds.length * val es := by
  simp [val, ofDigits_append]

lemma val_concat (d : BitVec w) : val (ds ++ [d]) = val ds + (2 ^ w) ^ ds.length * d.toNat := by
  simp [val_append]

@[simp] lemma val_replicate_zero (n : ℕ) : val (List.replicate n 0#w) = 0 := by
  induction n with
  | zero => rfl
  | succ n ih => simp [replicate_succ, ih]

lemma val_lt : val ds < (2 ^ w) ^ ds.length := by
  induction ds with
  | nil => simp
  | cons d ds ih =>
    calc val (d :: ds) = d.toNat + 2 ^ w * val ds := val_cons d ds
      _ < 2 ^ w * (val ds + 1) := by rw [mul_add]; omega
      _ ≤ 2 ^ w * (2 ^ w) ^ ds.length := mul_le_mul_left _ ih
      _ = (2 ^ w) ^ (d :: ds).length := by rw [length_cons, pow_succ']

/-! ## Splitting at a position -/

lemma val_take_add_drop (k : ℕ) (hk : k ≤ ds.length) : val ds = val (ds.take k) + (2 ^ w) ^ k * val (ds.drop k) := by
  conv_lhs => rw [← take_append_drop k ds]
  rw [val_append, length_take, min_eq_left hk]

lemma val_take (k : ℕ) : val (ds.take k) = val ds % (2 ^ w) ^ k := by
  rcases le_total k ds.length with hk | hk
  · have hlt : val (ds.take k) < (2 ^ w) ^ k := by
      simpa [length_take, min_eq_left hk] using val_lt (ds.take k)
    simp [val_take_add_drop ds k hk, Nat.mod_eq_of_lt hlt]
  · have hlt : val ds < (2 ^ w) ^ k :=
      lt_of_lt_of_le (val_lt ds) (Nat.pow_le_pow_right (by positivity) hk)
    rw [take_of_length_le hk, Nat.mod_eq_of_lt hlt]

lemma val_drop (k : ℕ) : val (ds.drop k) = val ds / (2 ^ w) ^ k := by
  rcases le_total k ds.length with hk | hk
  · have hlt : val (ds.take k) < (2 ^ w) ^ k := by
      simpa [length_take, min_eq_left hk] using val_lt (ds.take k)
    rw [val_take_add_drop ds k hk, Nat.add_mul_div_left _ _ (by positivity), Nat.div_eq_of_lt hlt, Nat.zero_add]
  · have hlt : val ds < (2 ^ w) ^ k :=
      lt_of_lt_of_le (val_lt ds) (Nat.pow_le_pow_right (by positivity) hk)
    rw [drop_eq_nil_of_le hk, Nat.div_eq_of_lt hlt, val_nil]

lemma toNat_getD (i : ℕ) : (ds.getD i 0#w).toNat = val ds / (2 ^ w) ^ i % 2 ^ w := by
  rw [← val_drop]
  rcases lt_or_ge i ds.length with hi | hi
  · rw [drop_eq_getElem_cons hi, val_cons, add_mul_mod_self_left,
      mod_eq_of_lt (BitVec.isLt _), getD_eq_getElem _ _ hi]
  · rw [drop_eq_nil_of_le hi, getD_eq_default _ _ hi]
    simp

lemma testBit_getD (i j : ℕ) (hj : j < w) : (ds.getD i 0#w).toNat.testBit j = (val ds).testBit (w * i + j) := by
  rw [toNat_getD, testBit_mod_two_pow, ← pow_mul, testBit_div_two_pow]
  simp [hj, add_comm]

/-! ## Zero, high zero digits and the top digit -/

lemma val_eq_zero_iff {ds : List (BitVec w)} : val ds = 0 ↔ ∀ d ∈ ds, d = 0#w := by
  induction ds with
  | nil => simp
  | cons d ds ih =>
    have hB : 2 ^ w ≠ 0 := by positivity
    rw [val_cons, Nat.add_eq_zero_iff, Nat.mul_eq_zero, forall_mem_cons, ← ih]
    constructor
    · rintro ⟨hd, hds⟩
      exact ⟨BitVec.eq_of_toNat_eq (by simpa using hd), hds.resolve_left hB⟩
    · rintro ⟨rfl, hds⟩
      simp [hds]

/-- A numeral whose top digit is not zero. -/
def NoHighZero : Prop := ds.getLast? ≠ some 0#w

instance (ds : List (BitVec w)) : Decidable (NoHighZero ds) :=
  inferInstanceAs (Decidable (_ ≠ _))

@[simp] lemma noHighZero_nil : NoHighZero ([] : List (BitVec w)) := by simp [NoHighZero]

@[simp] lemma noHighZero_concat (d : BitVec w) : NoHighZero (ds ++ [d]) ↔ d ≠ 0#w := by simp [NoHighZero]

lemma NoHighZero.le_val {ds : List (BitVec w)} (h : NoHighZero ds) (hne : ds ≠ []) :
    (2 ^ w) ^ (ds.length - 1) ≤ val ds := by
  obtain ⟨es, d, rfl⟩ : ∃ es d, ds = es ++ [d] := ⟨_, _, (dropLast_append_getLast hne).symm⟩
  have hd : 1 ≤ d.toNat := by
    by_contra hlt
    exact (noHighZero_concat es d).mp h (BitVec.eq_of_toNat_eq (by simp; omega))
  rw [val_concat, List.length_append, length_singleton, Nat.add_sub_cancel]
  calc (2 ^ w) ^ es.length = (2 ^ w) ^ es.length * 1 := (Nat.mul_one _).symm
    _ ≤ (2 ^ w) ^ es.length * d.toNat := Nat.mul_le_mul_left _ hd
    _ ≤ _ := Nat.le_add_left _ _

/-- A value at or above the weight of the top digit leaves no high zero digit. -/
lemma noHighZero_of_le_val {ds : List (BitVec w)} (h : (2 ^ w) ^ (ds.length - 1) ≤ val ds) : NoHighZero ds := by
  induction ds using List.reverseRecOn with
  | nil => exact noHighZero_nil
  | append_singleton ds d _ =>
    rw [noHighZero_concat]
    rintro rfl
    have := val_lt ds
    rw [val_concat, List.length_append, length_singleton, Nat.add_sub_cancel] at h
    simp at h
    omega

lemma NoHighZero.val_pos {ds : List (BitVec w)} (h : NoHighZero ds) (hne : ds ≠ []) : 0 < val ds :=
  lt_of_lt_of_le (by positivity) (h.le_val hne)

lemma NoHighZero.val_eq_zero_iff {ds : List (BitVec w)} (h : NoHighZero ds) : val ds = 0 ↔ ds = [] := by
  refine ⟨fun h0 => ?_, fun hnil => by simp [hnil]⟩
  by_contra hne
  exact absurd h0 (h.val_pos hne).ne'

lemma NoHighZero.length_le {ds : List (BitVec w)} (h : NoHighZero ds) {n : ℕ}
    (hw : 0 < w) (hlt : val ds < (2 ^ w) ^ n) : ds.length ≤ n := by
  rcases eq_or_ne ds [] with rfl | hne
  · simp
  · have hpow : (2 ^ w) ^ (ds.length - 1) < (2 ^ w) ^ n := lt_of_le_of_lt (h.le_val hne) hlt
    have := (Nat.pow_lt_pow_iff_right (Nat.one_lt_two_pow hw.ne')).mp hpow
    omega

lemma val_inj_of_length : ∀ {ds es : List (BitVec w)}, ds.length = es.length → val ds = val es → ds = es
  | [], [], _, _ => rfl
  | d :: ds, e :: es, hlen, hval => by
    rw [val_cons, val_cons] at hval
    have hmod := congrArg (· % 2 ^ w) hval
    simp only [Nat.add_mul_mod_self_left, Nat.mod_eq_of_lt (BitVec.isLt _)] at hmod
    have hds : val ds = val es := by
      rw [hmod] at hval
      exact Nat.eq_of_mul_eq_mul_left (by positivity) (Nat.add_left_cancel hval)
    rw [BitVec.eq_of_toNat_eq hmod, val_inj_of_length (by simpa using hlen) hds]

/-- A numeral without high zero digits is determined by its value. -/
lemma NoHighZero.val_inj {ds es : List (BitVec w)} (hw : 0 < w) (hd : NoHighZero ds)
    (he : NoHighZero es) (h : val ds = val es) : ds = es := by
  refine val_inj_of_length (le_antisymm ?_ ?_) h
  · exact hd.length_le hw (h ▸ val_lt es)
  · exact he.length_le hw (h ▸ val_lt ds)

def trim : List (BitVec w) := ds.rdropWhile (· == 0#w)

@[simp] lemma trim_nil : trim ([] : List (BitVec w)) = [] := rfl

lemma trim_concat (d : BitVec w) : trim (ds ++ [d]) = if d = 0#w then trim ds else ds ++ [d] := by
  by_cases hd : d = 0#w <;> simp [trim, hd]

@[simp] lemma val_trim : val (trim ds) = val ds := by
  induction ds using List.reverseRecOn with
  | nil => rfl
  | append_singleton ds d ih =>
    rw [trim_concat]
    split
    next hd => rw [ih, val_concat, hd]; simp
    next => rfl

lemma noHighZero_trim : NoHighZero (trim ds) := by
  induction ds using List.reverseRecOn with
  | nil => simp
  | append_singleton ds d ih =>
    rw [trim_concat]
    split
    next => exact ih
    next hd => simpa using hd

lemma length_trim_le : (trim ds).length ≤ ds.length := (List.rdropWhile_prefix _ ds).length_le

end Radix
