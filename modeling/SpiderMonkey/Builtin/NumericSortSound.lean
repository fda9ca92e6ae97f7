import Mathlib.Tactic.IntervalCases
import Mathlib.Tactic.NormNum
import SpiderMonkey.Builtin.NumericSort
import SpiderMonkey.Builtin.QuickSortSound

/-!
# Numbers in typed arrays are sorted

Each pass of the radix sort distributes the elements stably by one byte.  The integers are in order when their bytes
are, once the sign bit is flipped, and so are the single floats once their bits are.
-/

namespace SpiderMonkey.Sorting

open StableSort Store List Function Nat

variable {α S : Type*} {w : ℕ}

/-! ## Loops -/

lemma forUpTo_update (g : ℕ → α → α) (n : ℕ) (array : ℕ → α) (k : ℕ) :
    forUpTo n (fun i array => Function.update array i (g i (array i))) array k =
      if k < n then g k (array k) else array k := by
  induction n with
  | zero => rfl
  | succ n ih =>
    rw [forUpTo]
    by_cases heq : k = n
    · subst heq
      rw [update_self, if_pos (lt_succ_self k)]
      congr 1
      simp [ih]
    · rw [update_of_ne heq, ih]
      exact if_congr (by omega) rfl rfl

lemma slice_forUpTo_update (g : α → α) (len : ℕ) (array : ℕ → α) :
    slice (forUpTo len (fun i array => Function.update array i (g (array i))) array) 0 len =
      (slice array 0 len).map g := by
  rw [slice, slice, map_map]
  refine map_congr_left fun i hi => ?_
  have hi := mem_range'_1.1 hi
  exact (forUpTo_update (fun _ => g) len array i).trans (if_pos (by omega))

variable (signed : Bool)

@[simp] lemma element_number (b : BitVec w) : element w (number signed b) = b := by
  rw [element, number]
  split_ifs
  · exact BitVec.ofInt_toInt
  · simp

/-! ## Counting -/

/-- The byte of an element that a pass sorts by. -/
def columnKey (col : ℕ) (b : BitVec w) : ℕ := byteAtCol (number signed b) col

variable (array : ℕ → BitVec w)

/-- The elements with each key are counted, in the entry after the key's. -/
lemma frequencies_apply (len col : ℕ) (counts : ℕ → ℕ) (r : ℕ) :
    frequencies signed array len col counts (r + 1) = counts (r + 1) +
      ((slice array 0 len).filter fun b => decide (columnKey signed col b = r)).length := by
  induction len with
  | zero => rfl
  | succ n ih =>
    have hstep : frequencies signed array (n + 1) col counts = Function.update (frequencies signed array n col counts)
        (columnKey signed col (array n) + 1)
        (frequencies signed array n col counts (columnKey signed col (array n) + 1) + 1) := rfl
    rw [hstep, slice_concat (Nat.zero_le n), filter_append, List.length_append, ← Nat.add_assoc, ← ih,
      filter_key_singleton (columnKey signed col)]
    by_cases heq : columnKey signed col (array n) = r
    · simp [heq]
    · simp [heq, update_of_ne fun h => heq (succ.inj h).symm]

lemma frequencies_zero (len col : ℕ) (counts : ℕ → ℕ) : frequencies signed array len col counts 0 = counts 0 := by
  induction len with
  | zero => rfl
  | succ n ih =>
    rw [frequencies, forUpTo, ← frequencies, update_of_ne (succ_ne_zero _).symm, ih]

/-- The sums of the counts are where the buckets begin. -/
lemma indices_apply {key : α → ℕ} {xs : List α} {counts : ℕ → ℕ} (hzero : counts 0 = 0)
    (hcounts : ∀ r < 256, counts (r + 1) = (xs.filter fun x => decide (key x = r)).length) {r : ℕ} (hr : r ≤ 256) :
    indices counts r = (buckets key xs r).length := by
  have hprefix : ∀ n ≤ 256, ∀ k ≤ 256,
      forUpTo n (fun r counts => Function.update counts (r + 1) (counts (r + 1) + counts r)) counts k =
        if k ≤ n then (buckets key xs k).length else counts k := by
    intro n
    induction n with
    | zero =>
      intro _ k _
      by_cases hk : k = 0
      · subst hk
        rw [if_pos le_rfl]
        exact hzero
      · rw [if_neg (by omega)]
        rfl
    | succ n ih =>
      intro hn k hk
      rw [forUpTo]
      by_cases heq : k = n + 1
      · subst heq
        rw [update_self, ih (by omega) _ hk, ih (by omega) n (by omega), if_neg (by omega), if_pos le_rfl,
          if_pos le_rfl, buckets, List.length_append, hcounts n (by omega), Nat.add_comm]
      · rw [update_of_ne heq, ih (by omega) k hk]
        exact if_congr (by omega) rfl rfl
  rw [indices, hprefix 256 le_rfl r hr, if_pos hr]

lemma byteAtCol_lt (x : ℤ) (pos : ℕ) : byteAtCol x pos < 256 := by
  rw [byteAtCol, BitVec.toNat_and]
  exact lt_of_le_of_lt and_le_right (by decide)

lemma length_buckets_mono (key : α → ℕ) (xs : List α) {m n : ℕ} (h : m ≤ n) :
    (buckets key xs m).length ≤ (buckets key xs n).length := by
  induction n with
  | zero => rw [le_zero.1 h]
  | succ n ih =>
    obtain hle | rfl := le_succ_iff.1 h
    · rw [buckets, List.length_append]
      exact (ih hle).trans (Nat.le_add_right _ _)
    · exact le_rfl

/-- Each bucket is filled from its beginning, in the order of the elements. -/
lemma distribute_apply {len n col : ℕ} (hn : n ≤ len) (aux : ℕ → ℤ)
    {counts : ℕ → ℕ} (hcounts : ∀ r ≤ 256, counts r =
      (buckets (columnKey signed col) (slice array 0 len) r).length) {r : ℕ} (hr : r < 256) :
    (distribute signed array n col aux counts).2 r =
        counts r + ((slice array 0 n).filter fun b => decide (columnKey signed col b = r)).length ∧
      slice (distribute signed array n col aux counts).1 (counts r) ((distribute signed array n col aux counts).2 r) =
        ((slice array 0 n).filter fun b => decide (columnKey signed col b = r)).map (number signed) := by
  induction n generalizing r with
  | zero => exact ⟨rfl, slice_eq_nil le_rfl⟩
  | succ n ih =>
    have hb : columnKey signed col (array n) < 256 := byteAtCol_lt _ _
    obtain ⟨hcount, hslice⟩ := ih (by omega) hr
    obtain ⟨hcount', -⟩ := ih (by omega) hb
    -- The bucket of the element has room for it before the next bucket.
    have hroom (r : ℕ) (hr : r < 256) (m : ℕ) (hm : m ≤ len) :
        counts r + ((slice array 0 m).filter fun b => decide (columnKey signed col b = r)).length ≤ counts (r + 1) := by
      rw [hcounts r hr.le, hcounts (r + 1) hr, buckets, List.length_append, slice_append (Nat.zero_le m) hm,
        filter_append, List.length_append]
      omega
    have hstep : distribute signed array (n + 1) col aux counts =
        (Function.update (distribute signed array n col aux counts).1
          ((distribute signed array n col aux counts).2 (columnKey signed col (array n))) (number signed (array n)),
        Function.update (distribute signed array n col aux counts).2 (columnKey signed col (array n))
          ((distribute signed array n col aux counts).2 (columnKey signed col (array n)) + 1)) := rfl
    have hconcat : (slice array 0 (n + 1)).filter (fun b => decide (columnKey signed col b = r)) =
        (slice array 0 n).filter (fun b => decide (columnKey signed col b = r)) ++ if columnKey signed col (array n) = r then [array n] else [] := by
      simp [slice_concat (Nat.zero_le n), filter_key_singleton (columnKey signed col)]
    rw [hstep, hconcat]
    dsimp only
    by_cases heq : columnKey signed col (array n) = r
    · subst heq
      rw [if_pos rfl, update_self, List.length_append, length_singleton, hcount']
      refine ⟨by omega, ?_⟩
      rw [slice_concat (Nat.le_add_right _ _), update_self, map_append]
      rw [hcount] at hslice
      refine congrArg (· ++ [number signed (array n)]) (.trans (slice_congr fun i hlow hhigh => ?_) hslice)
      exact update_of_ne (by omega) _ _
    · rw [if_neg heq, update_of_ne (Ne.symm heq), append_nil]
      refine ⟨hcount, .trans (slice_congr fun i hlow hhigh => update_of_ne ?_ _ _) hslice⟩
      have hbefore := hroom r hr n (by omega)
      have hafter := hroom (columnKey signed col (array n)) hb (n + 1) hn
      rw [slice_concat (Nat.zero_le n), filter_append, filter_key_singleton (columnKey signed col), if_pos rfl,
        List.length_append, length_singleton] at hafter
      rw [hcount] at hhigh
      rw [hcount']
      intro hsame
      obtain hlt | hlt := Nat.lt_or_gt_of_ne heq
      · have hmono := length_buckets_mono (columnKey signed col) (slice array 0 len)
          (show columnKey signed col (array n) + 1 ≤ r from hlt)
        rw [← hcounts _ hr.le, ← hcounts _ (by omega)] at hmono
        omega
      · have hmono := length_buckets_mono (columnKey signed col) (slice array 0 len)
          (show r + 1 ≤ columnKey signed col (array n) from hlt)
        rw [← hcounts _ hb.le, ← hcounts _ (by omega)] at hmono
        omega

/-! ## A pass -/

lemma sortByColumn_spec (len col : ℕ) (c : Columns w) :
    slice (sortByColumn signed len col c).array 0 len = buckets (columnKey signed col) (slice c.array 0 len) 256 ∧
      ∀ i, len ≤ i → (sortByColumn signed len col c).array i = c.array i := by
  set zeros := forUpTo 257 (fun r counts => Function.update counts r 0) c.counts
  set counts := indices (frequencies signed c.array len col zeros)
  have hclear (r : ℕ) (hr : r ≤ 256) : zeros r = 0 :=
    (forUpTo_update (fun _ _ => 0) 257 c.counts r).trans (if_pos (by omega))
  have hindices (r : ℕ) (hr : r ≤ 256) : counts r = (buckets (columnKey signed col) (slice c.array 0 len) r).length := by
    refine indices_apply ?_ (fun r hr => ?_) hr
    · rw [frequencies_zero, hclear 0 (by omega)]
    · rw [frequencies_apply, hclear _ (by omega), Nat.zero_add]
  have harray : (sortByColumn signed len col c).array = forUpTo len
      (fun i array => Function.update array i (element w ((distribute signed c.array len col c.aux counts).1 i)))
      c.array := rfl
  have hcopied (i : ℕ) := forUpTo_update
    (fun i _ => element w ((distribute signed c.array len col c.aux counts).1 i)) len c.array i
  refine ⟨?_, fun i hi => (congrFun harray i).trans ((hcopied i).trans (if_neg (by omega)))⟩
  -- The buckets before `r` take up the places before its index.
  have hfilled (r : ℕ) (hr : r ≤ 256) : slice (distribute signed c.array len col c.aux counts).1 0 (counts r) =
      (buckets (columnKey signed col) (slice c.array 0 len) r).map (number signed) := by
    induction r with
    | zero =>
      rw [hindices 0 hr]
      rfl
    | succ r ih =>
      have hlt : r < 256 := hr
      obtain ⟨hcount, hslice⟩ := distribute_apply signed c.array le_rfl c.aux hindices hlt
      have hnext : counts (r + 1) = (distribute signed c.array len col c.aux counts).2 r := by
        simp [hcount, hindices r hlt.le, hindices (r + 1) hr, buckets]
      have hle : counts r ≤ counts (r + 1) := by
        rw [hindices r hlt.le, hindices (r + 1) hr]
        exact length_buckets_mono _ _ (le_succ r)
      rw [slice_append (Nat.zero_le _) hle, ih hlt.le, hnext, hslice, buckets, map_append]
  have hall : counts 256 = len := by
    have hperm : Rearranges (byKey (columnKey signed col)) True (slice c.array 0 len)
        (buckets (columnKey signed col) (slice c.array 0 len) 256) :=
      rearranges_buckets (fun b _ => byteAtCol_lt _ _) True
    simp [hindices 256 le_rfl, hperm.length_eq]
  have hsorted := hfilled 256 le_rfl
  rw [hall] at hsorted
  have helements : slice (sortByColumn signed len col c).array 0 len =
      (slice (distribute signed c.array len col c.aux counts).1 0 len).map (element w) := by
    rw [harray, slice, slice, map_map]
    refine map_congr_left fun i hi => ?_
    have hi := mem_range'_1.1 hi
    exact (hcopied i).trans (if_pos (by omega))
  rw [helements, hsorted, map_map]
  refine (map_congr_left fun b _ => ?_).trans (map_id _)
  exact element_number signed b

lemma byteAtCol_eq {x : ℤ} {n pos : ℕ} (hpos : pos < 4)
    (h : x % (2 ^ (8 * (pos + 1)) : ℕ) = (n % 2 ^ (8 * (pos + 1)) : ℕ)) : byteAtCol x pos = n / 256 ^ pos % 256 := by
  have hbyte : byteAtCol x pos = ((toInt32 x).sshiftRight (pos * 8)).toNat % 256 := by
    rw [byteAtCol, BitVec.toNat_and]
    exact and_two_pow_sub_one_eq_mod _ 8
  have hshift : ((toInt32 x).sshiftRight (pos * 8)).toInt = (toInt32 x).toInt / (2 ^ (pos * 8) : ℕ) := by
    simp [Int.shiftRight_eq_div_pow]
  have hint : (toInt32 x).toInt = x.bmod (2 ^ 32) := BitVec.toInt_ofInt x
  rw [BitVec.toInt_eq_toNat_cond, hint, Int.bmod] at hshift
  rw [hbyte]
  interval_cases pos <;> norm_num at h hshift ⊢ <;> split_ifs at hshift <;> omega

lemma columnKey_eq {nbytes col : ℕ} (hw : 8 * nbytes = w) (hle : nbytes ≤ 4) (hcol : col < nbytes)
    (b : BitVec w) : columnKey signed col b = b.toNat / 256 ^ col % 256 := by
  refine byteAtCol_eq (by omega) ?_
  have hdvd : ((2 ^ (8 * (col + 1)) : ℕ) : ℤ) ∣ (2 ^ w : ℕ) := Int.natCast_dvd_natCast.2 (pow_dvd_pow 2 (by omega))
  rw [number]
  split_ifs
  · rw [← Int.emod_emod_of_dvd _ hdvd, BitVec.toInt_eq_toNat_bmod, Int.bmod_emod, Int.emod_emod_of_dvd _ hdvd]
    exact (Int.natCast_mod _ _).symm
  · exact (Int.natCast_mod _ _).symm

/-- The number that the lowest bytes make. -/
def lowBytes (n : ℕ) (b : BitVec w) : ℕ := b.toNat % 256 ^ n

/-- The bytes that a pass sorts by are more significant than those before. -/
lemma byKey_lowBytes_succ {nbytes n : ℕ} (hw : 8 * nbytes = w) (hle : nbytes ≤ 4) (hn : n < nbytes)
    {x y : BitVec w} (h : byKey (columnKey signed n) x y = true)
    (htie : byKey (columnKey signed n) y x = true → byKey (lowBytes n) x y = true) :
    byKey (lowBytes (n + 1)) x y = true := by
  rw [byKey, decide_eq_true_iff, columnKey_eq signed hw hle hn, columnKey_eq signed hw hle hn] at h
  rw [byKey, decide_eq_true_iff, columnKey_eq signed hw hle hn, columnKey_eq signed hw hle hn, byKey,
    decide_eq_true_iff, lowBytes, lowBytes] at htie
  rw [byKey, decide_eq_true_iff, lowBytes, lowBytes, mod_pow_succ, mod_pow_succ]
  by_cases heq : y.toNat / 256 ^ n % 256 ≤ x.toNat / 256 ^ n % 256
  · rw [le_antisymm h heq]
    exact Nat.add_le_add_right (htie heq) _
  · have hmul := Nat.mul_le_mul_left (256 ^ n) (succ_le_of_lt (Nat.lt_of_not_le heq))
    have hlow := mod_lt x.toNat (show 0 < 256 ^ n from pow_pos (by decide) n)
    rw [mul_succ] at hmul
    omega

lemma sortColumns_spec {nbytes : ℕ} (hw : 8 * nbytes = w) (hle : nbytes ≤ 4) (len : ℕ) (view : ℕ → BitVec w) :
    Sorted (byKey BitVec.toNat) (slice (sortColumns nbytes signed len view) 0 len) ∧
      (slice (sortColumns nbytes signed len view) 0 len).Perm (slice view 0 len) ∧
      ∀ i, len ≤ i → sortColumns nbytes signed len view i = view i := by
  have hpasses : ∀ n ≤ nbytes, ∃ c : Columns w, forUpTo n (fun col c => sortByColumn signed len col c)
      { array := view, aux := fun _ => 0, counts := fun _ => 0 } = c ∧
      Sorted (byKey (lowBytes n)) (slice c.array 0 len) ∧ (slice c.array 0 len).Perm (slice view 0 len) ∧
      ∀ i, len ≤ i → c.array i = view i := by
    intro n
    induction n with
    | zero =>
      refine fun _ => ⟨_, rfl, pairwise_of_forall fun x y => decide_eq_true ?_, .refl _, fun _ _ => rfl⟩
      simp [lowBytes, mod_one]
    | succ n ih =>
      intro hn
      obtain ⟨c, hc, hsorted, hperm, hout⟩ := ih (by omega)
      obtain ⟨hbuckets, hout'⟩ := sortByColumn_spec signed len n c
      have hrearranges : Rearranges (byKey (columnKey signed n)) True (slice c.array 0 len)
          (buckets (columnKey signed n) (slice c.array 0 len) 256) :=
        rearranges_buckets (fun b _ => byteAtCol_lt _ _) True
      refine ⟨sortByColumn signed len n c, by rw [forUpTo, hc], ?_, ?_, fun i hi => (hout' i hi).trans (hout i hi)⟩
      · rw [hbuckets]
        exact (hrearranges.lex (isTotalPreorder_byKey _) hsorted).imp fun h =>
          byKey_lowBytes_succ signed hw hle hn h.1 h.2
      · rw [hbuckets]
        exact hrearranges.perm.trans hperm
  obtain ⟨c, hc, hsorted, hperm, hout⟩ := hpasses nbytes le_rfl
  have hfull : lowBytes nbytes = (BitVec.toNat : BitVec w → ℕ) := by
    funext b
    have hpow : 256 ^ nbytes = 2 ^ w := by rw [← hw, pow_mul]; rfl
    simp [lowBytes, hpow]
  rw [hfull] at hsorted
  rw [sortColumns, hc]
  exact ⟨hsorted, hperm, hout⟩

/-! ## Integers -/

lemma toNat_xor_high {k n : ℕ} (h : n < 2 ^ (k + 1)) : n ^^^ 2 ^ k = if n < 2 ^ k then n + 2 ^ k else n - 2 ^ k := by
  have hdiv : (n ^^^ 2 ^ k) / 2 ^ k = n / 2 ^ k ^^^ 2 ^ k / 2 ^ k := xor_div_two_pow
  have hmod : (n ^^^ 2 ^ k) % 2 ^ k = n % 2 ^ k ^^^ 2 ^ k % 2 ^ k := xor_mod_two_pow
  have hsplit := div_add_mod (n ^^^ 2 ^ k) (2 ^ k)
  rw [mod_self, xor_zero] at hmod
  rw [Nat.div_self (pow_pos Nat.two_pos k)] at hdiv
  rw [hdiv, hmod] at hsplit
  split_ifs with hlt
  · rw [div_eq_of_lt hlt, mod_eq_of_lt hlt, Nat.zero_xor, mul_one] at hsplit
    omega
  · have hone : n / 2 ^ k = 1 := by
      rw [Nat.div_eq_iff (pow_pos Nat.two_pos k)]
      rw [pow_succ] at h
      omega
    have hmodulo := div_add_mod n (2 ^ k)
    rw [hone, mul_one] at hmodulo
    rw [hone, Nat.xor_self, mul_zero] at hsplit
    omega

lemma toNat_element_toInt (hw : w ≤ 32) (y : BitVec 32) : (element w y.toInt).toNat = y.toNat % 2 ^ w := by
  have hdvd : ((2 ^ w : ℕ) : ℤ) ∣ (2 ^ 32 : ℕ) := Int.natCast_dvd_natCast.2 (pow_dvd_pow 2 hw)
  rw [element, BitVec.toNat_ofInt, ← Int.emod_emod_of_dvd _ hdvd, BitVec.toInt_eq_toNat_bmod, Int.bmod_emod,
    Int.emod_emod_of_dvd _ hdvd]
  exact Int.toNat_natCast _

lemma toNat_toInt32_mod (hw : w ≤ 32) (signed : Bool) (b : BitVec w) :
    (toInt32 (number signed b)).toNat % 2 ^ w = b.toNat := by
  have hround := toNat_element_toInt hw (toInt32 (number signed b))
  have hdvd : ((2 ^ w : ℕ) : ℤ) ∣ (2 ^ 32 : ℕ) := Int.natCast_dvd_natCast.2 (pow_dvd_pow 2 hw)
  rw [← hround, toInt32, BitVec.toInt_ofInt]
  have helement : element w ((number signed b).bmod (2 ^ 32)) = element w (number signed b) := by
    refine BitVec.eq_of_toNat_eq ?_
    rw [element, element, BitVec.toNat_ofInt, BitVec.toNat_ofInt, ← Int.emod_emod_of_dvd _ hdvd, Int.bmod_emod,
      Int.emod_emod_of_dvd _ hdvd]
  rw [helement, element_number]

lemma toNat_flipSign {nbytes : ℕ} (hw : 8 * nbytes = w) (hsize : nbytes = 2 ∨ nbytes = 4) (b : BitVec w) :
    (flipSign nbytes true b).toNat = b.toNat ^^^ 2 ^ (w - 1) := by
  have hmask : (signMask nbytes).toNat % 2 ^ w = 2 ^ (w - 1) := by
    subst hw
    obtain rfl | rfl := hsize <;> decide
  rw [flipSign, toNat_element_toInt (by omega), BitVec.toNat_xor, xor_mod_two_pow, toNat_toInt32_mod (by omega),
    hmask]

/-- Flipping the sign bit adds half of the range to the number. -/
lemma toNat_flipSign_eq_add {nbytes : ℕ} (hw : 8 * nbytes = w) (hsize : nbytes = 2 ∨ nbytes = 4) (b : BitVec w) :
    ((flipSign nbytes true b).toNat : ℤ) = number true b + (2 ^ (w - 1) : ℕ) := by
  have hpow : 2 ^ (w - 1 + 1) = 2 ^ w := by rw [Nat.sub_add_cancel (by omega)]
  have hlt := b.isLt
  rw [toNat_flipSign hw hsize, toNat_xor_high (by rw [hpow]; exact hlt), number, if_pos rfl, BitVec.toInt_eq_toNat_cond]
  rw [pow_succ] at hpow
  split_ifs <;> omega

lemma flipSign_flipSign {nbytes : ℕ} (hw : 8 * nbytes = w) (hsize : nbytes = 2 ∨ nbytes = 4) (b : BitVec w) :
    flipSign nbytes true (flipSign nbytes true b) = b := by
  refine BitVec.eq_of_toNat_eq ?_
  simp [toNat_flipSign hw hsize, Nat.xor_assoc]

def numberLe (x y : BitVec w) : Bool := decide (number signed x ≤ number signed y)

lemma isTotalPreorder_numberLe : IsTotalPreorder (numberLe signed : BitVec w → BitVec w → Bool) where
  total x y := (le_total (number signed x) (number signed y)).imp decide_eq_true decide_eq_true
  trans _ _ _ hxy hyz := decide_eq_true ((of_decide_eq_true hxy).trans (of_decide_eq_true hyz))

lemma consistent_typedArrayCompareInt {σ : Type*} (signed : Bool) :
    Consistent (typedArrayCompareInt signed : Comparator (BitVec w) (Store (BitVec w) σ)) (numberLe signed) := by
  refine ⟨isTotalPreorder_numberLe signed, fun x y s => ⟨number signed x - number signed y, s, ?_, rfl, ?_, ?_⟩⟩
  · rw [typedArrayCompareInt]
    by_cases hdiff : number signed x - number signed y ≠ 0
    · rw [if_pos hdiff]
    · simp [not_not.1 hdiff]
  · rw [numberLe, decide_eq_true_iff]
    omega
  · rw [numberLe, decide_eq_true_iff]
    omega

lemma quickSortElements_spec {comparefn : Comparator (BitVec w) (Store (BitVec w) Unit)} {le : BitVec w → BitVec w → Bool}
    (hc : Consistent comparefn le) {fuel len : ℕ} (hfuel : 2 * len + 3 ≤ fuel) (array : ℕ → BitVec w) :
    ∃ array', quickSortElements comparefn fuel len array = some array' ∧ Sorted le (slice array' 0 len) ∧
      (slice array' 0 len).Perm (slice array 0 len) ∧ ∀ i, len ≤ i → array' i = array i := by
  obtain ⟨s', hquick, hsorted, hshuffles⟩ := quickSort_spec hc hfuel { buffers := fun _ => array, world := () }
  rw [quickSortElements, hquick]
  exact ⟨_, rfl, hsorted, hshuffles.perm, fun i hi => hshuffles.keeps .given i fun _ => .inr hi⟩

lemma radixSort_spec {nbytes : ℕ} (hw : 8 * nbytes = w) (hsize : nbytes = 2 ∨ nbytes = 4) {fuel len : ℕ}
    (hfuel : 2 * len + 3 ≤ fuel) (array : ℕ → BitVec w) (signed : Bool) :
    ∃ array', radixSort fuel array len nbytes signed (typedArrayCompareInt signed) = some array' ∧
      Sorted (numberLe signed) (slice array' 0 len) ∧ (slice array' 0 len).Perm (slice array 0 len) ∧
      ∀ i, len ≤ i → array' i = array i := by
  rw [radixSort]
  by_cases hsmall : len < 512
  · rw [if_pos hsmall]
    exact quickSortElements_spec (consistent_typedArrayCompareInt signed) hfuel array
  · rw [if_neg hsmall]
    refine ⟨_, rfl, ?_⟩
    cases signed with
    | false =>
      obtain ⟨hsorted, hperm, hout⟩ := sortColumns_spec false hw (by omega) len array
      refine ⟨hsorted.imp fun h => decide_eq_true ?_, hperm, hout⟩
      exact cast_le.2 (of_decide_eq_true h)
    | true =>
      simp only [if_pos]
      obtain ⟨hsorted, hperm, hout⟩ := sortColumns_spec true hw (by omega) len
        (forUpTo len (fun i view => Function.update view i (flipSign nbytes true (view i))) array)
      rw [slice_forUpTo_update] at hperm ⊢
      refine ⟨pairwise_map.2 (hsorted.imp fun {x y} h => decide_eq_true ?_), ?_, fun i hi => ?_⟩
      · have hx := toNat_flipSign_eq_add hw hsize (flipSign nbytes true x)
        have hy := toNat_flipSign_eq_add hw hsize (flipSign nbytes true y)
        rw [flipSign_flipSign hw hsize] at hx hy
        have hle := of_decide_eq_true h
        omega
      · have hback := hperm.map (flipSign nbytes true)
        rw [map_map] at hback
        refine hback.trans ?_
        have hid : (slice array 0 len).map (flipSign nbytes true ∘ flipSign nbytes true) = slice array 0 len :=
          (map_congr_left fun b _ => flipSign_flipSign hw hsize b).trans (map_id _)
        rw [hid]
      · have hrestored := forUpTo_update (fun _ => flipSign nbytes true) len (sortColumns nbytes true len
          (forUpTo len (fun i view => Function.update view i (flipSign nbytes true (view i))) array)) i
        have hflipped := forUpTo_update (fun _ => flipSign nbytes true) len array i
        rw [if_neg (by omega)] at hrestored hflipped
        exact hrestored.trans ((hout i hi).trans hflipped)

/-! ## Bytes -/

/-- The entry of the buffer for an element. -/
def countKey (min : ℤ) (b : BitVec w) : ℕ := (number signed b - min).toNat

lemma countValues_apply (min : ℤ) (array : ℕ → BitVec w) (len r : ℕ) : countValues signed min array len r =
      ((slice array 0 len).filter fun b => decide (countKey signed min b = r)).length := by
  induction len with
  | zero => rfl
  | succ n ih =>
    have hstep : countValues signed min array (n + 1) = Function.update (countValues signed min array n)
        (countKey signed min (array n)) (countValues signed min array n (countKey signed min (array n)) + 1) := rfl
    rw [hstep, slice_concat (Nat.zero_le n), filter_append, List.length_append, ← ih,
      filter_key_singleton (countKey signed min)]
    by_cases heq : countKey signed min (array n) = r
    · simp [heq]
    · simp [heq, update_of_ne (Ne.symm heq)]

lemma forUpTo_fill (value : α) (i n : ℕ) (array : ℕ → α) (j : ℕ) :
    forUpTo n (fun k array => Function.update array (i + k) value) array j =
      if i ≤ j ∧ j < i + n then value else array j := by
  induction n with
  | zero => exact (if_neg (by omega)).symm
  | succ n ih =>
    rw [forUpTo]
    by_cases heq : j = i + n
    · simp [heq]
    · rw [update_of_ne heq, ih]
      exact if_congr (by omega) rfl rfl

lemma skipEmpty_spec {buffer : ℕ → ℕ} {val r : ℕ} (hval : val ≤ r) (hr : r < 256) (hbuffer : buffer r ≠ 0) :
    ∃ val', skipEmpty buffer val = some val' ∧ val ≤ val' ∧ val' < 256 ∧ ∀ k, val ≤ k → k < val' → buffer k = 0 := by
  induction hn : r - val generalizing val with
  | zero =>
    obtain rfl : val = r := by omega
    rw [skipEmpty, if_pos hr, if_neg hbuffer]
    exact ⟨val, rfl, le_rfl, hr, fun k hk hk' => by omega⟩
  | succ n ih =>
    rw [skipEmpty, if_pos (by omega)]
    by_cases hempty : buffer val = 0
    · obtain ⟨val', hskip, hlow, hhigh, hzeros⟩ := ih (show val + 1 ≤ r by omega) (by omega)
      rw [if_pos hempty]
      refine ⟨val', hskip, by omega, hhigh, fun k hk hk' => ?_⟩
      by_cases heq : k = val
      · rw [heq, hempty]
      · exact hzeros k (by omega) hk'
    · rw [if_neg hempty]
      exact ⟨val, rfl, le_rfl, by omega, fun k hk hk' => by omega⟩

lemma buckets_eq_of_empty (key : α → ℕ) (xs : List α) {m n : ℕ} (hle : m ≤ n)
    (h : ∀ r, m ≤ r → r < n → (xs.filter fun x => decide (key x = r)).length = 0) :
    buckets key xs n = buckets key xs m := by
  induction n with
  | zero => rw [le_zero.1 hle]
  | succ n ih =>
    obtain hle' | rfl := le_succ_iff.1 hle
    · rw [buckets, length_eq_zero_iff.1 (h n hle' (lt_succ_self n)), append_nil]
      exact ih hle' fun r hr hr' => h r hr (hr'.trans (lt_succ_self n))
    · rfl

variable {signed : Bool} {min : ℤ} {xs : List (BitVec w)}

lemma filter_countKey (hmin : ∀ b : BitVec w, min ≤ number signed b) (xs : List (BitVec w)) (val : ℕ) :
    (xs.filter fun b => decide (countKey signed min b = val)) =
      List.replicate (xs.filter fun b => decide (countKey signed min b = val)).length (element w ((val : ℤ) + min)) := by
  refine eq_replicate_iff.2 ⟨rfl, fun b hb => ?_⟩
  have hkey : countKey signed min b = val := of_decide_eq_true (mem_filter.1 hb).2
  have hle := hmin b
  rw [← element_number signed b, ← hkey, countKey]
  congr 1
  omega

lemma writeBack_spec {buffer : ℕ → ℕ} (hmin : ∀ b : BitVec w, min ≤ number signed b)
    (hkeys : ∀ b ∈ xs, countKey signed min b < 256)
    (hbuffer : ∀ r, buffer r = (xs.filter fun b => decide (countKey signed min b = r)).length) {val : ℕ}
    (hval : val ≤ 256) {array : ℕ → BitVec w}
    (hslice : slice array 0 (buckets (countKey signed min) xs val).length = buckets (countKey signed min) xs val) :
    ∃ array', writeBack min buffer xs.length (buckets (countKey signed min) xs val).length val array = some array' ∧
      slice array' 0 xs.length = buckets (countKey signed min) xs 256 ∧ ∀ i, xs.length ≤ i → array' i = array i := by
  have hall := (rearranges_buckets hkeys True).length_eq
  induction hn : 256 - val using Nat.strong_induction_on generalizing val array with
  | h n ih =>
    have hmono := length_buckets_mono (countKey signed min) xs hval
    rw [writeBack]
    by_cases hmore : (buckets (countKey signed min) xs val).length < xs.length
    · have hexists : ∃ r, val ≤ r ∧ r < 256 ∧ buffer r ≠ 0 := by
        by_contra hnone
        have hsame := buckets_eq_of_empty (countKey signed min) xs hval fun r hr hr' => by
          rw [← hbuffer]
          by_contra hne
          exact hnone ⟨r, hr, hr', hne⟩
        rw [← hsame] at hmore
        omega
      obtain ⟨r, hlow, hhigh, hne⟩ := hexists
      obtain ⟨val', hskip, hlow', hhigh', hzeros⟩ := skipEmpty_spec hlow hhigh hne
      have hsame : buckets (countKey signed min) xs val' = buckets (countKey signed min) xs val :=
        buckets_eq_of_empty _ _ hlow' fun k hk hk' => (hbuffer k).symm.trans (hzeros k hk hk')
      have hnext : (buckets (countKey signed min) xs val).length + buffer val' =
          (buckets (countKey signed min) xs (val' + 1)).length := by
        simp [buckets, hsame, hbuffer]
      have hmono' := length_buckets_mono (countKey signed min) xs (show val' + 1 ≤ 256 by omega)
      have hfilled (j : ℕ) := forUpTo_fill (element w ((val' : ℤ) + min))
        (buckets (countKey signed min) xs val).length (buffer val') array j
      have hslice' : slice (forUpTo (buffer val') (fun k array => Function.update array
          ((buckets (countKey signed min) xs val).length + k) (element w ((val' : ℤ) + min))) array) 0
            (buckets (countKey signed min) xs (val' + 1)).length = buckets (countKey signed min) xs (val' + 1) := by
        rw [← hnext, slice_append (Nat.zero_le _) (Nat.le_add_right _ _), buckets, hsame]
        refine congrArg₂ (· ++ ·) ?_ ?_
        · exact (slice_congr fun j _ hj => (hfilled j).trans (if_neg (by omega))).trans hslice
        · rw [filter_countKey hmin xs val', ← hbuffer]
          refine eq_replicate_iff.2 ⟨by rw [length_slice]; omega, fun b hb => ?_⟩
          obtain ⟨j, hj, rfl⟩ := mem_map.1 hb
          have hj := mem_range'_1.1 hj
          exact (hfilled j).trans (if_pos (by omega))
      rw [if_pos hmore, hskip]
      dsimp only
      rw [hnext]
      obtain ⟨array', hback, hresult, hout⟩ := ih (256 - (val' + 1)) (by omega) (by omega) hslice' rfl
      exact ⟨array', hback, hresult, fun i hi => (hout i hi).trans ((hfilled i).trans (if_neg (by omega)))⟩
    · rw [if_neg hmore]
      refine ⟨array, rfl, ?_, fun _ _ => rfl⟩
      -- All elements are in the buckets before `val`, so the other ones are empty.
      have hempty : buckets (countKey signed min) xs 256 = buckets (countKey signed min) xs val := by
        refine buckets_eq_of_empty _ _ hval fun r hr hr' => ?_
        have hbefore := length_buckets_mono (countKey signed min) xs hr
        have hafter := length_buckets_mono (countKey signed min) xs (show r + 1 ≤ 256 by omega)
        have hnext : (buckets (countKey signed min) xs (r + 1)).length = (buckets (countKey signed min) xs r).length +
            (xs.filter fun b => decide (countKey signed min b = r)).length := by
          simp [buckets]
        omega
      have hlength : xs.length = (buckets (countKey signed min) xs val).length := by
        rw [← hempty]
        exact hall.symm
      rw [hempty, hlength]
      exact hslice

lemma countingSort_spec {fuel len : ℕ} (hfuel : 2 * len + 3 ≤ fuel) (array : ℕ → BitVec 8) (signed : Bool) :
    ∃ array', countingSort fuel array len signed (typedArrayCompareInt signed) = some array' ∧
      Sorted (numberLe signed) (slice array' 0 len) ∧ (slice array' 0 len).Perm (slice array 0 len) ∧
      ∀ i, len ≤ i → array' i = array i := by
  rw [countingSort]
  by_cases hsmall : len < 128
  · rw [if_pos hsmall]
    exact quickSortElements_spec (consistent_typedArrayCompareInt signed) hfuel array
  · rw [if_neg hsmall]
    dsimp only
    generalize hmin : (if signed = true then -128 else 0 : ℤ) = min
    have hrange (b : BitVec 8) : min ≤ number signed b ∧ number signed b < min + 256 := by
      have hlt := b.isLt
      have hint := BitVec.toInt_eq_toNat_cond b
      rw [← hmin, number]
      split_ifs at hint ⊢ <;> omega
    have hkeys (b : BitVec 8) (_ : b ∈ slice array 0 len) : countKey signed min b < 256 := by
      have hb := hrange b
      rw [countKey]
      omega
    have hnone : slice array 0 (buckets (countKey signed min) (slice array 0 len) 0).length =
        buckets (countKey signed min) (slice array 0 len) 0 := rfl
    obtain ⟨array', hback, hslice, hout⟩ :=
      writeBack_spec (fun b => (hrange b).1) hkeys (countValues_apply signed min array len) (Nat.zero_le _) hnone
    rw [length_slice, Nat.sub_zero] at hback hslice hout
    have hrearranges := rearranges_buckets hkeys True
    refine ⟨array', hback, ?_, ?_, hout⟩
    · rw [hslice]
      refine (hrearranges.sorted trivial).imp fun {x y} h => decide_eq_true ?_
      have hle := of_decide_eq_true h
      have hx := hrange x
      have hy := hrange y
      rw [countKey, countKey] at hle
      omega
    · rw [hslice]
      exact hrearranges.perm

end SpiderMonkey.Sorting
