import SpiderMonkey.Builtin.NumericSortSound

/-!
# Single floats are sorted

Once their bits are flipped, the patterns of numbers are in the order of their values, with the negative zero before
the positive one, and the NaNs are after them.
-/

namespace SpiderMonkey.Sorting

open StableSort

namespace Float32

/-! ## Patterns -/

lemma magnitude_strictMono : StrictMono magnitude := by
  refine strictMono_nat_of_lt_succ fun n => ?_
  rw [magnitude, magnitude]
  by_cases hcarry : n % 2 ^ 23 = 2 ^ 23 - 1
  · -- The mantissa overflows into the exponent.
    rw [show (n + 1) / 2 ^ 23 = n / 2 ^ 23 + 1 by omega, show (n + 1) % 2 ^ 23 = 0 by omega,
      if_neg (Nat.succ_ne_zero _), Nat.add_sub_cancel]
    by_cases hzero : n / 2 ^ 23 = 0
    · rw [if_pos hzero, hzero]
      omega
    · obtain ⟨e, he⟩ := Nat.exists_eq_add_one_of_ne_zero hzero
      rw [if_neg hzero, he, Nat.add_sub_cancel, pow_succ 2 e, hcarry]
      have hpos : 0 < 2 ^ e := pow_pos Nat.two_pos e
      omega
  · rw [show (n + 1) / 2 ^ 23 = n / 2 ^ 23 by omega, show (n + 1) % 2 ^ 23 = n % 2 ^ 23 + 1 by omega]
    by_cases hzero : n / 2 ^ 23 = 0
    · rw [if_pos hzero, if_pos hzero]
      omega
    · rw [if_neg hzero, if_neg hzero]
      exact Nat.mul_lt_mul_of_pos_right (by omega) (pow_pos Nat.two_pos _)

lemma magnitude_lt_iff {m n : ℕ} : magnitude m < magnitude n ↔ m < n := magnitude_strictMono.lt_iff_lt

variable (b : BitVec 32)

lemma msb_iff : b.msb = true ↔ 2 ^ 31 ≤ b.toNat := by
  simp [BitVec.msb_eq_decide]

lemma isNaN_iff : isNaN b = true ↔ 0x7F800000 < b.toNat % 2 ^ 31 := decide_eq_true_iff

lemma and_mask_shifted (n k a : ℕ) : n &&& (2 ^ k - 1) * 2 ^ a = n / 2 ^ a % 2 ^ k * 2 ^ a := by
  have hdiv : (n &&& (2 ^ k - 1) * 2 ^ a) / 2 ^ a = n / 2 ^ a &&& (2 ^ k - 1) * 2 ^ a / 2 ^ a := Nat.and_div_two_pow
  have hmod : (n &&& (2 ^ k - 1) * 2 ^ a) % 2 ^ a = n % 2 ^ a &&& (2 ^ k - 1) * 2 ^ a % 2 ^ a := Nat.and_mod_two_pow
  have hsplit := Nat.div_add_mod' (n &&& (2 ^ k - 1) * 2 ^ a) (2 ^ a)
  rw [hdiv, hmod, Nat.mul_div_cancel _ (pow_pos Nat.two_pos a), Nat.mul_mod_left, Nat.and_zero,
    Nat.and_two_pow_sub_one_eq_mod] at hsplit
  exact hsplit.symm

lemma and_signMask_ne_zero : b &&& signMask 4 ≠ 0 ↔ 2 ^ 31 ≤ b.toNat := by
  have hlt := b.isLt
  have hand : (b &&& signMask 4).toNat = b.toNat / 2 ^ 31 % 2 ^ 1 * 2 ^ 31 := and_mask_shifted b.toNat 1 31
  rw [Ne, ← BitVec.toNat_inj, hand]
  change ¬ _ = 0 ↔ _
  omega

/-- The negative NaNs are those that are not flipped. -/
lemma flipped_iff : (b &&& 0x7F800000 ≠ 0x7F800000 ∨ b &&& 0x007FFFFF = 0) ↔ ¬ isNaN b = true := by
  have hmantissa : (b &&& 0x007FFFFF).toNat = b.toNat % 2 ^ 23 := Nat.and_two_pow_sub_one_eq_mod b.toNat 23
  have hexponent : (b &&& 0x7F800000).toNat = b.toNat / 2 ^ 23 % 2 ^ 8 * 2 ^ 23 := and_mask_shifted b.toNat 8 23
  rw [isNaN_iff, Ne, ← BitVec.toNat_inj, ← BitVec.toNat_inj, hmantissa, hexponent]
  change (¬ _ = 0x7F800000 ∨ _ = 0) ↔ _
  omega

lemma toNat_flipFloat : (flipFloat b).toNat =
    if b.toNat < 2 ^ 31 then b.toNat + 2 ^ 31 else if isNaN b = true then b.toNat else 2 ^ 32 - 1 - b.toNat := by
  rw [flipFloat]
  by_cases hneg : 2 ^ 31 ≤ b.toNat
  · rw [if_pos ((and_signMask_ne_zero b).2 hneg), if_neg (show ¬ b.toNat < 2 ^ 31 by omega)]
    by_cases hnan : isNaN b = true
    · rw [if_neg (mt (flipped_iff b).1 (not_not.2 hnan)), if_pos hnan]
    · rw [if_pos ((flipped_iff b).2 hnan), if_neg hnan]
      exact (congrArg BitVec.toNat BitVec.xor_allOnes).trans BitVec.toNat_not
  · have hxor : (b ^^^ signMask 4).toNat = b.toNat ^^^ 2 ^ 31 := BitVec.toNat_xor _ _
    have hlt : b.toNat < 2 ^ 31 := by omega
    rw [if_neg (mt (and_signMask_ne_zero b).1 hneg), if_pos hlt, hxor, toNat_xor_high b.isLt, if_pos hlt]

lemma toNat_restoreFloat :
    (restoreFloat b).toNat = if b.toNat < 2 ^ 31 then 2 ^ 32 - 1 - b.toNat else b.toNat - 2 ^ 31 := by
  rw [restoreFloat]
  by_cases hneg : 2 ^ 31 ≤ b.toNat
  · have hxor : (b ^^^ signMask 4).toNat = b.toNat ^^^ 2 ^ 31 := BitVec.toNat_xor _ _
    have hlt : ¬ b.toNat < 2 ^ 31 := by omega
    rw [if_pos ((and_signMask_ne_zero b).2 hneg), if_neg hlt, hxor, toNat_xor_high b.isLt, if_neg hlt]
  · rw [if_neg (mt (and_signMask_ne_zero b).1 hneg), if_pos (show b.toNat < 2 ^ 31 by omega)]
    exact (congrArg BitVec.toNat BitVec.xor_allOnes).trans BitVec.toNat_not

/-! ## The order -/

/-- Ascending, with the negative zero before the positive one, and NaNs at the end. -/
def le (x y : BitVec 32) : Bool :=
  isNaN y || !isNaN x && (decide (value x < value y) || decide (value x = value y) && (x.msb || !y.msb))

/-- The flipped pattern of a number; all NaNs are after them. -/
def rank : ℕ := if isNaN b = true then 2 ^ 32 else (flipFloat b).toNat

lemma value_lt_iff {x y : BitVec 32} (hx : ¬ isNaN x = true) (hy : ¬ isNaN y = true) :
    (value x < value y ∨ value x = value y ∧ (x.msb = true ∨ ¬ y.msb = true)) ↔
      (flipFloat x).toNat ≤ (flipFloat y).toNat := by
  have hxlt := x.isLt
  have hylt := y.isLt
  have hlt := magnitude_lt_iff (m := x.toNat % 2 ^ 31) (n := y.toNat % 2 ^ 31)
  have hgt := magnitude_lt_iff (m := y.toNat % 2 ^ 31) (n := x.toNat % 2 ^ 31)
  have hxsign := msb_iff x
  have hysign := msb_iff y
  rw [toNat_flipFloat, toNat_flipFloat, if_neg hx, if_neg hy, value, value]
  generalize x.msb = xnegative at *
  generalize y.msb = ynegative at *
  cases xnegative <;> cases ynegative <;>
    simp only [Bool.false_eq_true, false_iff, true_iff, if_true, if_false, not_true, not_false_iff, or_true, or_false,
      and_true, and_false] at hxsign hysign ⊢ <;>
    split_ifs <;> omega

lemma le_eq (x y : BitVec 32) : le x y = byKey rank x y := by
  have hx := (flipFloat x).isLt
  have hy := (flipFloat y).isLt
  rw [byKey, le, rank, rank]
  by_cases hynan : isNaN y = true
  · rw [if_pos hynan, hynan, Bool.true_or]
    refine (decide_eq_true ?_).symm
    split_ifs <;> omega
  · by_cases hxnan : isNaN x = true
    · rw [if_neg hynan, if_pos hxnan, hxnan, Bool.not_true, Bool.false_and, Bool.or_false, Bool.eq_false_of_not_eq_true hynan]
      exact (decide_eq_false (by omega)).symm
    · rw [if_neg hynan, if_neg hxnan, Bool.eq_false_of_not_eq_true hynan, Bool.eq_false_of_not_eq_true hxnan, Bool.false_or,
        Bool.not_false, Bool.true_and]
      refine Bool.eq_iff_iff.2 ?_
      rw [decide_eq_true_iff, ← value_lt_iff hxnan hynan]
      simp only [Bool.or_eq_true, Bool.and_eq_true, decide_eq_true_eq, Bool.not_eq_true']
      simp

lemma isTotalPreorder_le : IsTotalPreorder le := by
  have heq : le = byKey rank := funext fun x => funext fun y => le_eq x y
  rw [heq]
  exact isTotalPreorder_byKey rank

lemma value_neg_iff (x : BitVec 32) : (x.msb = true → value x ≤ 0) ∧ (x.msb = false → 0 ≤ value x) := by
  rw [value]
  refine ⟨fun h => ?_, fun h => ?_⟩
  · rw [if_pos h]
    omega
  · rw [h, if_neg Bool.false_ne_true]
    omega

lemma msb_eq_of_value_eq {x y : BitVec 32} (heq : value x = value y) (hne : value x ≠ 0) : x.msb = y.msb := by
  obtain ⟨hxneg, hxpos⟩ := value_neg_iff x
  obtain ⟨hyneg, hypos⟩ := value_neg_iff y
  cases hx : x.msb <;> cases hy : y.msb
  · rfl
  · have hle := hyneg hy
    have hge := hxpos hx
    omega
  · have hle := hxneg hx
    have hge := hypos hy
    omega
  · rfl

lemma le_of_isNaN {x y : BitVec 32} (hy : isNaN y = true) : le x y = true := by simp [le, hy]

lemma not_le_of_isNaN {x y : BitVec 32} (hx : isNaN x = true) (hy : isNaN y = false) : ¬ le x y = true := by
  rw [le, hx, hy]
  exact Bool.false_ne_true

lemma le_iff {x y : BitVec 32} (hx : isNaN x = false) (hy : isNaN y = false) :
    le x y = true ↔ value x < value y ∨ value x = value y ∧ (x.msb = true ∨ y.msb = false) := by
  rw [le, hx, hy]
  simp

lemma lt_iff (x y : BitVec 32) : lt x y = true ↔ isNaN x = false ∧ isNaN y = false ∧ value x < value y := by
  rw [lt]
  simp [and_assoc]

lemma isZero_iff (x : BitVec 32) : isZero x = true ↔ isNaN x = false ∧ value x = 0 := by
  rw [isZero]
  simp

end Float32

open Float32

lemma typedArrayCompare_spec {S : Type*} (x y : BitVec 32) (s : S) :
    ∃ order, typedArrayCompare x y s = some (order, s) ∧ (order ≤ 0 ↔ Float32.le x y = true) ∧
      (0 ≤ order ↔ Float32.le y x = true) := by
  rw [typedArrayCompare]
  by_cases hlt : lt x y = true
  · obtain ⟨hx, hy, hvalue⟩ := (lt_iff x y).1 hlt
    rw [if_pos hlt]
    refine ⟨-1, rfl, ?_, ?_⟩
    · rw [le_iff hx hy]
      omega
    · rw [le_iff hy hx]
      omega
  rw [if_neg hlt]
  by_cases hgt : lt y x = true
  · obtain ⟨hy, hx, hvalue⟩ := (lt_iff y x).1 hgt
    rw [if_pos hgt]
    refine ⟨1, rfl, ?_, ?_⟩
    · rw [le_iff hx hy]
      omega
    · rw [le_iff hy hx]
      omega
  rw [if_neg hgt]
  by_cases hzero : isZero x = true ∧ isZero y = true
  · obtain ⟨hx, hxzero⟩ := (isZero_iff x).1 hzero.1
    obtain ⟨hy, hyzero⟩ := (isZero_iff y).1 hzero.2
    rw [if_pos hzero]
    refine ⟨_, rfl, ?_, ?_⟩
    · rw [le_iff hx hy, hxzero, hyzero]
      cases x.msb <;> cases y.msb <;> decide
    · rw [le_iff hy hx, hxzero, hyzero]
      cases x.msb <;> cases y.msb <;> decide
  rw [if_neg hzero]
  cases hx : isNaN x with
  | true =>
    rw [if_pos rfl]
    cases hy : isNaN y with
    | true => exact ⟨0, rfl, iff_of_true le_rfl (le_of_isNaN hy), iff_of_true le_rfl (le_of_isNaN hx)⟩
    | false =>
      exact ⟨1, rfl, iff_of_false (by decide) (not_le_of_isNaN hx hy), iff_of_true (by decide) (le_of_isNaN hx)⟩
  | false =>
    rw [if_neg Bool.false_ne_true]
    cases hy : isNaN y with
    | true =>
      exact ⟨-1, rfl, iff_of_true (by decide) (le_of_isNaN hy), iff_of_false (by decide) (not_le_of_isNaN hy hx)⟩
    | false =>
      have heq : value x = value y := by
        have hnotlt : ¬ value x < value y := fun h => hlt ((lt_iff x y).2 ⟨hx, hy, h⟩)
        have hnotgt : ¬ value y < value x := fun h => hgt ((lt_iff y x).2 ⟨hy, hx, h⟩)
        omega
      have hne : value x ≠ 0 := fun h => hzero ⟨(isZero_iff x).2 ⟨hx, h⟩, (isZero_iff y).2 ⟨hy, heq ▸ h⟩⟩
      have hsign := msb_eq_of_value_eq heq hne
      refine ⟨0, rfl, iff_of_true le_rfl ((le_iff hx hy).2 (.inr ⟨heq, ?_⟩)),
        iff_of_true le_rfl ((le_iff hy hx).2 (.inr ⟨heq.symm, ?_⟩))⟩
      · rw [hsign]
        cases y.msb <;> decide
      · rw [hsign]
        cases y.msb <;> decide

lemma consistent_typedArrayCompare {σ : Type*} :
    Consistent (typedArrayCompare : Comparator (BitVec 32) (Store (BitVec 32) σ)) Float32.le := by
  refine ⟨isTotalPreorder_le, fun x y s => ?_⟩
  obtain ⟨order, hcompare, hle, hge⟩ := typedArrayCompare_spec x y s
  exact ⟨order, s, hcompare, rfl, hle, hge⟩

/-! ## The sort -/

lemma restoreFloat_flipFloat (b : BitVec 32) :
    (isNaN b = false → restoreFloat (flipFloat b) = b ∧ rank b = (flipFloat b).toNat ∧
        (flipFloat b).toNat ≤ 0xFF800000) ∧
      (isNaN b = true → isNaN (restoreFloat (flipFloat b)) = true ∧ 0xFF800000 < (flipFloat b).toNat) := by
  have hlt := b.isLt
  have hflip := toNat_flipFloat b
  have hrestore := toNat_restoreFloat (flipFloat b)
  have hiff := isNaN_iff b
  refine ⟨fun hnan => ⟨BitVec.eq_of_toNat_eq ?_, ?_, ?_⟩, fun hnan => ⟨?_, ?_⟩⟩
  · rw [hnan] at hflip
    rw [hrestore, hflip]
    simp only [Bool.false_eq_true, if_false]
    split_ifs <;> omega
  · rw [rank, hnan]
    rfl
  · have hsmall := mt hiff.2 (by rw [hnan]; exact Bool.false_ne_true)
    rw [hnan] at hflip
    rw [hflip]
    simp only [Bool.false_eq_true, if_false]
    split_ifs <;> omega
  · rw [hnan] at hflip hiff
    have hlarge := hiff.1 rfl
    rw [isNaN_iff, hrestore, hflip]
    simp only [if_true]
    split_ifs <;> omega
  · rw [hnan] at hflip hiff
    have hlarge := hiff.1 rfl
    rw [hflip]
    simp only [if_true]
    split_ifs <;> omega

lemma filter_map_numbers {g : BitVec 32 → BitVec 32} (hnumber : ∀ b, isNaN b = false → g b = b)
    (hnan : ∀ b, isNaN b = true → isNaN (g b) = true) (xs : List (BitVec 32)) :
    (xs.map g).filter (fun b => !isNaN b) = xs.filter fun b => !isNaN b := by
  have hsame (b : BitVec 32) : isNaN (g b) = isNaN b := by
    cases hb : isNaN b with
    | true => exact hnan b hb
    | false => rw [hnumber b hb, hb]
  rw [List.filter_map]
  have hfilter : xs.filter ((fun b => !isNaN b) ∘ g) = xs.filter fun b => !isNaN b :=
    List.filter_congr fun b _ => congrArg (!·) (hsame b)
  rw [hfilter]
  refine (List.map_congr_left fun b hb => hnumber b ?_).trans (List.map_id _)
  rw [← Bool.not_eq_true']
  exact (List.mem_filter.1 hb).2

/-- Sorted, with the same patterns of numbers and as many NaNs. -/
structure SortedFloats (xs ys : List (BitVec 32)) : Prop where
  sorted : Sorted Float32.le ys
  numbers : (ys.filter fun b => !isNaN b).Perm (xs.filter fun b => !isNaN b)
  nans : (ys.filter isNaN).length = (xs.filter isNaN).length

lemma SortedFloats.of_perm_map {g : BitVec 32 → BitVec 32} (hnumber : ∀ b, isNaN b = false → g b = b)
    (hnan : ∀ b, isNaN b = true → isNaN (g b) = true) {xs ys : List (BitVec 32)} (hsorted : Sorted Float32.le ys)
    (hperm : ys.Perm (xs.map g)) : SortedFloats xs ys := by
  have hnumbers : (ys.filter fun b => !isNaN b).Perm (xs.filter fun b => !isNaN b) := by
    rw [← filter_map_numbers hnumber hnan xs]
    exact hperm.filter _
  have hlength := hperm.length_eq
  rw [List.length_map, List.length_eq_length_filter_add isNaN, hnumbers.length_eq,
    List.length_eq_length_filter_add (l := xs) isNaN] at hlength
  exact ⟨hsorted, hnumbers, by omega⟩

lemma radixSortFloating_spec {fuel len : ℕ} (hfuel : 2 * len + 3 ≤ fuel) (array : ℕ → BitVec 32) :
    ∃ array', radixSortFloating fuel array len typedArrayCompare = some array' ∧
      SortedFloats (slice array 0 len) (slice array' 0 len) ∧ ∀ i, len ≤ i → array' i = array i := by
  rw [radixSortFloating]
  by_cases hsmall : len < 512
  · obtain ⟨values, hquick, hsorted, hperm, -⟩ :=
      quickSortElements_spec consistent_typedArrayCompare hfuel fun i => canonicalize (array i)
    rw [if_pos hsmall, hquick]
    refine ⟨_, rfl, ?_, fun i hi => if_neg (by omega)⟩
    have hvalues : slice (fun i => if i < len then values i else array i) 0 len = slice values 0 len :=
      slice_congr fun i _ hi => if_pos hi
    have hmap : slice (fun i => canonicalize (array i)) 0 len = (slice array 0 len).map canonicalize := by
      simp [slice]
    rw [hmap] at hperm
    rw [hvalues]
    refine .of_perm_map (fun b hb => ?_) (fun b hb => ?_) hsorted hperm
    · simp [canonicalize, hb]
    · rw [canonicalize, hb, if_pos rfl]
      rfl
  · obtain ⟨hsorted, hperm, hout⟩ := sortColumns_spec true (show 8 * 4 = 32 from rfl) le_rfl len
      (forUpTo len (fun i view => Function.update view i (flipFloat (view i))) array)
    rw [if_neg hsmall]
    refine ⟨_, rfl, ?_, fun i hi => ?_⟩
    · rw [slice_forUpTo_update restoreFloat]
      rw [slice_forUpTo_update flipFloat] at hperm
      have hback := hperm.map restoreFloat
      rw [List.map_map] at hback
      refine .of_perm_map (fun b hb => ((restoreFloat_flipFloat b).1 hb).1)
        (fun b hb => ((restoreFloat_flipFloat b).2 hb).1) ?_ hback
      refine List.pairwise_map.2 (hsorted.imp_of_mem fun {u v} hu hv huv => ?_)
      obtain ⟨a, -, rfl⟩ := List.mem_map.1 (hperm.mem_iff.1 hu)
      obtain ⟨b, -, rfl⟩ := List.mem_map.1 (hperm.mem_iff.1 hv)
      have hle := of_decide_eq_true huv
      cases hb : isNaN b with
      | true => exact le_of_isNaN ((restoreFloat_flipFloat b).2 hb).1
      | false =>
        obtain ⟨hbsame, hbrank, hbsmall⟩ := (restoreFloat_flipFloat b).1 hb
        cases ha : isNaN a with
        | true =>
          have halarge := ((restoreFloat_flipFloat a).2 ha).2
          omega
        | false =>
          obtain ⟨hasame, harank, -⟩ := (restoreFloat_flipFloat a).1 ha
          rw [hasame, hbsame, le_eq, byKey, harank, hbrank]
          exact decide_eq_true hle
    · have hrestored := forUpTo_update (fun _ => restoreFloat) len (sortColumns 4 true len
        (forUpTo len (fun i view => Function.update view i (flipFloat (view i))) array)) i
      have hflipped := forUpTo_update (fun _ => flipFloat) len array i
      rw [if_neg (by omega)] at hrestored hflipped
      exact hrestored.trans ((hout i hi).trans hflipped)

/-- The numbers in a typed array are sorted in ascending order, whatever its length and contents; single floats by
their patterns, with NaNs at the end.  Quick sort, which sorts what is short, sorts with every comparator of a total
preorder: its partitions stay within their ranges, and its loop ends. -/
theorem numericSorts_ascending : (∀ (fuel len : ℕ) (array : ℕ → BitVec 8) (signed : Bool), 2 * len + 3 ≤ fuel →
      ∃ array', countingSort fuel array len signed (typedArrayCompareInt signed) = some array' ∧
        Sorted (numberLe signed) (slice array' 0 len) ∧ (slice array' 0 len).Perm (slice array 0 len) ∧
        ∀ i, len ≤ i → array' i = array i) ∧
    (∀ (nbytes fuel len : ℕ) (array : ℕ → BitVec (8 * nbytes)) (signed : Bool), nbytes = 2 ∨ nbytes = 4 →
      2 * len + 3 ≤ fuel →
        ∃ array', radixSort fuel array len nbytes signed (typedArrayCompareInt signed) = some array' ∧
          Sorted (numberLe signed) (slice array' 0 len) ∧ (slice array' 0 len).Perm (slice array 0 len) ∧
          ∀ i, len ≤ i → array' i = array i) ∧
    (∀ (fuel len : ℕ) (array : ℕ → BitVec 32), 2 * len + 3 ≤ fuel →
      ∃ array', radixSortFloating fuel array len typedArrayCompare = some array' ∧
        SortedFloats (slice array 0 len) (slice array' 0 len) ∧ ∀ i, len ≤ i → array' i = array i) ∧
    ∀ (α σ : Type) (comparefn : Comparator α (Store α σ)) (le : α → α → Bool), Consistent comparefn le →
      (∀ (fuel len : ℕ) (s : Store α σ), 2 * len + 3 ≤ fuel →
        ∃ s', quickSort comparefn fuel len s = some s' ∧ Sorted le (slice (s'.buffers .given) 0 len) ∧
          Shuffles 0 len s s') ∧
      ∀ (from_ to_ : ℕ) (s : Store α σ), from_ + 3 ≤ to_ →
        ∃ j s', partition comparefn from_ to_ s = some (j, s') ∧ from_ < j ∧ j < to_ ∧ Shuffles from_ (to_ + 1) s s' :=
  ⟨fun _ _ array signed hfuel => countingSort_spec hfuel array signed,
    fun _ _ _ array signed hsize hfuel => radixSort_spec rfl hsize hfuel array signed,
    fun _ _ array hfuel => radixSortFloating_spec hfuel array,
    fun _ _ _ _ hc => ⟨fun _ _ s hfuel => quickSort_spec hc hfuel s, fun _ _ s hlt => by
      obtain ⟨j, s', hpartition, hlow, hhigh, hshuffles, -⟩ := partition_spec hc hlt s
      exact ⟨j, s', hpartition, hlow, hhigh, hshuffles⟩⟩⟩

/-- Three bytes are sorted as signed numbers. -/
theorem numericSorts_ascending_bytes :
    ∃ array', countingSort 9 (fun i => [5, 0xFF, 0x80].getD i 0) 3 true (typedArrayCompareInt true) = some array' ∧
      Sorted (numberLe true) (slice array' 0 3) := by
  obtain ⟨array', hsort, hsorted, -⟩ :=
    numericSorts_ascending.1 9 3 (fun i => [5, 0xFF, 0x80].getD i 0) true (by decide)
  exact ⟨array', hsort, hsorted⟩

end SpiderMonkey.Sorting
