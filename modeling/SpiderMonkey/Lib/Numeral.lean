import Mathlib.Data.Nat.Digits.Lemmas
import Mathlib.Tactic

/-!
# Numerals and the lengths they need

The canonical numeral of an integer in a base of at most 36, and its reading back.  Programs that
print a number produce its digits from the low end, some fixed number of them at a time, so the
low digits of a number (`lowDigits`) are the unit of which `Nat.digits` is put together here.
Programs that reserve memory for a numeral estimate its length from a rounded logarithm;
`pow_le_pow_of_scaled` is what makes such an estimate safe.
-/

namespace Numeral

open List Nat

variable {r : ℕ}

/-! ## The low digits of a number -/

/-- The `k` low digits of `n` in base `r`, least significant first. -/
def lowDigits (r : ℕ) : ℕ → ℕ → List ℕ
  | 0, _ => []
  | k + 1, n => n % r :: lowDigits r k (n / r)

@[simp] lemma length_lowDigits (k n : ℕ) : (lowDigits r k n).length = k := by
  induction k generalizing n with
  | zero => rfl
  | succ k ih => simp [lowDigits, ih]

lemma lowDigits_add (j k n : ℕ) : lowDigits r (j + k) n = lowDigits r j n ++ lowDigits r k (n / r ^ j) := by
  induction j generalizing n with
  | zero => simp [lowDigits]
  | succ j ih =>
    rw [Nat.succ_add, lowDigits, lowDigits, ih, Nat.div_div_eq_div_mul, pow_succ', cons_append]

/-- What lies above the low digits does not affect them. -/
lemma lowDigits_add_mul (hr : 0 < r) (k a b : ℕ) : lowDigits r k (a + r ^ k * b) = lowDigits r k a := by
  induction k generalizing a with
  | zero => rfl
  | succ k ih =>
    have hsplit : a + r ^ (k + 1) * b = a + r * (r ^ k * b) := by ring
    simp [lowDigits, lowDigits, hsplit, add_mul_div_left _ _ hr, ih]

lemma lowDigits_mod (hr : 0 < r) (k n : ℕ) : lowDigits r k (n % r ^ k) = lowDigits r k n := by
  conv_rhs => rw [← mod_add_div n (r ^ k), lowDigits_add_mul hr]

lemma digits_eq_lowDigits_append (hr : 1 < r) {k n : ℕ} (h : n / r ^ k ≠ 0) :
    Nat.digits r n = lowDigits r k n ++ Nat.digits r (n / r ^ k) := by
  induction k generalizing n with
  | zero => simp [lowDigits]
  | succ k ih =>
    rw [pow_succ', ← Nat.div_div_eq_div_mul] at h ⊢
    have hn : n ≠ 0 := by
      rintro rfl
      simp at h
    rw [Nat.digits_eq_cons_digits_div hr hn, ih h, lowDigits, cons_append]

lemma length_digits_eq_add (hr : 1 < r) {k n : ℕ} (h : n / r ^ k ≠ 0) :
    (digits r n).length = k + (digits r (n / r ^ k)).length := by
  simp [digits_eq_lowDigits_append hr h]

/-! ## Lengths -/

/-- Powers compared through a rational approximation `u / s` of a logarithm. -/
lemma pow_le_pow_of_scaled {a c u s m n : ℕ} (ha : 0 < a) (hs : s ≠ 0) (h : a ^ u ≤ c ^ s)
    (hmn : s * m ≤ u * n) : a ^ m ≤ c ^ n := by
  have hscaled : (a ^ m) ^ s ≤ (c ^ n) ^ s := by
    calc (a ^ m) ^ s = a ^ (s * m) := by rw [← pow_mul, Nat.mul_comm]
      _ ≤ a ^ (u * n) := Nat.pow_le_pow_right ha hmn
      _ = (a ^ u) ^ n := pow_mul a u n
      _ ≤ (c ^ s) ^ n := Nat.pow_le_pow_left h n
      _ = (c ^ n) ^ s := by rw [← pow_mul, ← pow_mul, Nat.mul_comm]
  exact (Nat.pow_le_pow_iff_left hs).mp hscaled

lemma length_digits_of_bounds (hr : 1 < r) {k n : ℕ} (hlow : r ^ k ≤ n) (hhigh : n < r ^ (k + 1)) :
    (digits r n).length = k + 1 := by
  apply le_antisymm
  · exact (digits_length_le_iff hr n).mpr hhigh
  · exact (lt_digits_length_iff hr n).mpr hlow

/-! ## Reading a sequence of digits -/

/-- The number a sequence of digits denotes after the number `v` has been read, most significant
digit first. -/
def valueFrom (r v : ℕ) (ds : List ℕ) : ℕ := ds.foldl (fun v d => v * r + d) v

@[simp] lemma valueFrom_nil (v : ℕ) : valueFrom r v [] = v := rfl

@[simp] lemma valueFrom_cons (v d : ℕ) (ds : List ℕ) : valueFrom r v (d :: ds) = valueFrom r (v * r + d) ds := rfl

lemma valueFrom_append (v : ℕ) (ds es : List ℕ) : valueFrom r v (ds ++ es) = valueFrom r (valueFrom r v ds) es := by
  simp [valueFrom, foldl_append]

/-- Reading the digits from the top inverts listing them from the bottom. -/
lemma valueFrom_reverse (ds : List ℕ) : valueFrom r 0 ds.reverse = ofDigits r ds := by
  induction ds with
  | nil => rfl
  | cons d ds ih =>
    rw [reverse_cons, valueFrom_append, ih, ofDigits_cons]
    simp only [valueFrom_cons, valueFrom_nil]
    ring

lemma valueFrom_reverse_digits (n : ℕ) : valueFrom r 0 (digits r n).reverse = n := by
  rw [valueFrom_reverse, ofDigits_digits]

/-! ## Characters -/

def digitChar (d : ℕ) : Char :=
  if d < 10 then Char.ofNat ('0'.toNat + d) else Char.ofNat ('a'.toNat + (d - 10))

/-- The digit a character stands for, in either case. -/
def charValue (c : ℕ) : Option ℕ :=
  if '0'.toNat ≤ c ∧ c ≤ '9'.toNat then some (c - '0'.toNat)
  else if 'a'.toNat ≤ c ∧ c ≤ 'z'.toNat then some (c - 'a'.toNat + 10)
  else if 'A'.toNat ≤ c ∧ c ≤ 'Z'.toNat then some (c - 'A'.toNat + 10)
  else none

lemma charValue_digitChar {d : ℕ} (hd : d < 36) : charValue (digitChar d).toNat = some d := by
  have hall : ∀ d < 36, charValue (digitChar d).toNat = some d := by decide
  exact hall d hd

lemma digitChar_eq_zero_iff {d : ℕ} (hd : d < 36) : digitChar d = '0' ↔ d = 0 := by
  have hall : ∀ d < 36, (digitChar d = '0' ↔ d = 0) := by decide
  exact hall d hd

/-- The characters of a magnitude, most significant first. -/
def magnitude (r n : ℕ) : List Char :=
  if n = 0 then ['0'] else (digits r n).reverse.map digitChar

/-- The canonical numeral of an integer. -/
def numeral (r : ℕ) (i : ℤ) : List Char :=
  if i < 0 then '-' :: magnitude r i.natAbs else magnitude r i.natAbs

/-- `s` is a nonempty sequence of digits of the base `r`. -/
def IsDigits (r : ℕ) (s : List ℕ) : Prop :=
  s ≠ [] ∧ ∀ c ∈ s, ∃ d < r, charValue c = some d

def value (r : ℕ) (s : List ℕ) : ℕ := valueFrom r 0 (s.map fun c => (charValue c).getD 0)

lemma value_dropWhile (s : List ℕ) : value r (s.dropWhile (· == '0'.toNat)) = value r s := by
  induction s with
  | nil => rfl
  | cons c s ih =>
    by_cases hc : c = '0'.toNat
    · have hzero : charValue '0'.toNat = some 0 := by decide
      rw [hc, dropWhile_cons_of_pos (by decide), ih]
      unfold value
      rw [map_cons, hzero, valueFrom_cons]
      simp
    · rw [dropWhile_cons_of_neg (by simpa using hc)]

lemma magnitude_ne_nil (n : ℕ) : magnitude r n ≠ [] := by
  unfold magnitude
  by_cases hn : n = 0
  · simp [hn]
  · simpa [hn] using digits_ne_nil_iff_ne_zero.mpr hn

lemma magnitude_mem (hr : 1 < r) {n : ℕ} {c : Char} (hc : c ∈ magnitude r n) : ∃ d < r, c = digitChar d := by
  unfold magnitude at hc
  by_cases hn : n = 0
  · rw [if_pos hn, mem_singleton] at hc
    exact ⟨0, by omega, hc⟩
  · simp only [hn, if_false, mem_map, mem_reverse] at hc
    obtain ⟨d, hd, rfl⟩ := hc
    exact ⟨d, digits_lt_base hr hd, rfl⟩

lemma magnitude_head_ne (hr : 1 < r) (hr' : r ≤ 36) {n : ℕ} (hn : n ≠ 0) :
    (magnitude r n).head (magnitude_ne_nil n) ≠ '0' := by
  have hne := digits_ne_nil_iff_ne_zero (b := r).mpr hn
  have hlast := getLast_digit_ne_zero r hn
  have hlt := digits_lt_base hr (getLast_mem hne)
  have hhead : (magnitude r n).head (magnitude_ne_nil n) = digitChar ((digits r n).getLast hne) := by
    simp [magnitude, hn, head_reverse]
  rw [hhead, Ne, digitChar_eq_zero_iff (by omega)]
  exact hlast

lemma isDigits_magnitude (hr : 1 < r) (hr' : r ≤ 36) (n : ℕ) : IsDigits r ((magnitude r n).map Char.toNat) := by
  refine ⟨by simpa using magnitude_ne_nil n, fun code hcode => ?_⟩
  obtain ⟨c, hc, rfl⟩ := mem_map.mp hcode
  obtain ⟨d, hd, rfl⟩ := magnitude_mem hr hc
  exact ⟨d, hd, charValue_digitChar (by omega)⟩

/-- No character of a nonzero numeral is skipped as a leading zero. -/
lemma dropWhile_magnitude (hr : 1 < r) (hr' : r ≤ 36) {n : ℕ} (hn : n ≠ 0) :
    ((magnitude r n).map Char.toNat).dropWhile (· == '0'.toNat) = (magnitude r n).map Char.toNat := by
  have hhead := magnitude_head_ne hr hr' hn
  obtain ⟨c, s, hs⟩ := exists_cons_of_ne_nil (magnitude_ne_nil (r := r) n)
  simp only [hs, head_cons] at hhead
  rw [hs, map_cons, dropWhile_cons_of_neg]
  simpa using fun h => hhead (Char.toNat_inj.mp h)

theorem value_magnitude (hr : 1 < r) (hr' : r ≤ 36) (n : ℕ) : value r ((magnitude r n).map Char.toNat) = n := by
  unfold value magnitude
  by_cases hn : n = 0
  · have hzero : charValue '0'.toNat = some 0 := by decide
    simp only [hn, if_true, map_cons, map_nil, hzero]
    simp
  · have hdigits : (((digits r n).reverse.map digitChar).map Char.toNat).map
        (fun c => (charValue c).getD 0) = (digits r n).reverse := by
      rw [map_map, map_map]
      conv_rhs => rw [← map_id (digits r n).reverse]
      apply map_congr_left
      intro d hd
      have hlt := digits_lt_base hr (mem_reverse.mp hd)
      simp [charValue_digitChar (show d < 36 by omega)]
    simp only [hn, if_false, hdigits]
    exact valueFrom_reverse_digits n

end Numeral
