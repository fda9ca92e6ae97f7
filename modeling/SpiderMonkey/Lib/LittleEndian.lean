import SpiderMonkey.Lib.Radix

/-!
# Numbers in bytes

Numbers and arrays of numbers of a fixed size in bytes, least significant byte first.
-/

namespace LittleEndian

abbrev Byte := BitVec 8

lemma or_shiftLeft {low : ℕ} (high : ℕ) {shift : ℕ} (h : low < 2 ^ shift) :
    low ||| high <<< shift = low + high * 2 ^ shift := by
  rw [Nat.shiftLeft_eq, Nat.or_comm, mul_comm, ← Nat.two_pow_add_eq_or_of_lt h, add_comm]

/-- The low bytes of a number. -/
def encode : ℕ → ℕ → List Byte
  | 0, _ => []
  | size + 1, n => BitVec.ofNat 8 n :: encode size (n / 2 ^ 8)

@[simp] lemma length_encode (size n : ℕ) : (encode size n).length = size := by
  induction size generalizing n with
  | zero => rfl
  | succ size ih => simp [encode, ih]

lemma val_encode (size n : ℕ) : Radix.val (encode size n) = n % (2 ^ 8) ^ size := by
  induction size generalizing n with
  | zero => simp [encode, Nat.mod_one]
  | succ size ih =>
    rw [encode, Radix.val_cons, ih, BitVec.toNat_ofNat, pow_succ' (2 ^ 8), Nat.mod_mul]

lemma val_encode_of_lt {size n : ℕ} (h : n < (2 ^ 8) ^ size) : Radix.val (encode size n) = n :=
  (val_encode size n).trans (Nat.mod_eq_of_lt h)

lemma val_take_encode {size n : ℕ} (h : n < (2 ^ 8) ^ size) (rest : List Byte) :
    Radix.val ((encode size n ++ rest).take size) = n := by
  simp [val_encode_of_lt h]

/-! ## Arrays -/

def encodeArray (size : ℕ) (ns : List ℕ) : List Byte := ns.flatMap (encode size)

/-- The first `count` elements of an array. -/
def decodeArray (size : ℕ) : ℕ → List Byte → List ℕ
  | 0, _ => []
  | count + 1, bytes => Radix.val (bytes.take size) :: decodeArray size count (bytes.drop size)

lemma lt_of_mem_decodeArray {size count n : ℕ} {bytes : List Byte}
    (h : n ∈ decodeArray size count bytes) : n < (2 ^ 8) ^ size := by
  induction count generalizing bytes with
  | zero => exact absurd h List.not_mem_nil
  | succ count ih =>
    obtain rfl | h := List.mem_cons.1 h
    · refine (Radix.val_lt _).trans_le (Nat.pow_le_pow_right (by norm_num) ?_)
      simp
    · exact ih h

/-! ## Padding -/

/-- The number of bytes that fill up the last word of an array. -/
def padding (word length : ℕ) : ℕ := (word - length % word) % word

end LittleEndian
